/-
Module: Lexicon.Proofs.Forest.Enumeration
Layer: Proofs
Purpose: What a table lists depends on its content alone: each of its entries once, in the
  lexicographic order of the labels of their keys, whatever history has shaped its nodes.
Imports: Lexicon.Proofs.Forest.Reloading
Trusted boundary: none
Main exports: Label.digits, Label.Before.digits_lt, Forest.Session.Reached,
  Forest.Session.Reached.resume, Forest.Session.Reached.enumerates
-/
import Lexicon.Proofs.Forest.Reloading

namespace Lexicon

/-! ### Labels as a sequence -/

namespace Label

/-- The labels of a key, lowest bits first: six of five bits and one of the two highest bits. -/
def digits (key : Int32) : List Nat :=
  (List.range levels).map fun level => (key.toUInt32.toNat >>> (5 * level)) % 32

@[simp] theorem length_digits (key : Int32) : (digits key).length = levels := by
  rw [digits, List.length_map, List.length_range]

theorem getElem_digits (key : Int32) {level : Nat} (inside : level < (digits key).length) :
    (digits key)[level] = (ofKey key level).val := by
  simp only [digits, List.getElem_map, List.getElem_range, val_ofKey, weight, Nat.shiftLeft_eq,
    Nat.one_mul, Nat.shiftRight_eq_div_pow]

/-- Beyond the last level all labels are zero. -/
theorem val_ofKey_of_le {level : Nat} (beyond : levels ≤ level) (key : Int32) :
    (ofKey key level).val = 0 := by
  have bound := key.toUInt32.toNat_lt
  have wide : 2 ^ 35 ≤ weight level := by
    rw [weight, Nat.shiftLeft_eq, Nat.one_mul]
    exact Nat.pow_le_pow_right (by decide) (by have total : levels = 7 := rfl; omega)
  rw [val_ofKey, Nat.div_eq_of_lt (by omega), Nat.zero_mod]

/-- A key that comes before another one has the smaller sequence of labels. -/
theorem Before.digits_lt {first second : Int32} (ahead : Before first second) :
    digits first < digits second := by
  obtain ⟨level, same, less⟩ := ahead
  have within : level < levels := by
    apply Nat.lt_of_not_le
    intro beyond
    rw [val_ofKey_of_le beyond second] at less
    exact absurd less (Nat.not_lt_zero _)
  rw [List.lt_iff_exists]
  refine .inr ⟨level, by simpa using within, by simpa using within, ?_, ?_⟩
  · intro lower below
    rw [getElem_digits, getElem_digits, ofKey_eq_of_mod (mod_weight_of_le below same)]
  · rw [getElem_digits, getElem_digits]
    exact less

end Label

namespace Forest

namespace Session

/-- The keys of a table, in the order in which they are listed. -/
def keys (session : Session) (table : Nat) : List Int32 :=
  (session.forest.entries (session.table table)).map (·.key)

/-! ### Every history -/

/-- The sessions that some history leads to, and what their tables hold by then: each value that was
stored last and not erased since, with the table that was created below it.  A request for which
there are not enough slots changes nothing of that, and neither does a reload. -/
inductive Reached : Session → Atlas → Prop
  | start : Reached start Atlas.start
  | served {session : Session} {atlas : Atlas} (request : Request) (reached : Reached session atlas)
      (roomy : ¬ session.Short request) : Reached (session.step request).2 (atlas.step request).2
  | refused {session : Session} {atlas : Atlas} (request : Request)
      (reached : Reached session atlas) (short : session.Short request) :
      Reached (session.step request).2 atlas
  | reloaded {session next : Session} {atlas : Atlas} (before after : List UInt8)
      (reached : Reached session atlas) (reload : session.reload before after = .ok next) :
      Reached next atlas

/-- A request for which there are not enough slots is not answered as by an atlas. -/
theorem Reflects.reply_ne_of_short {loose : Prop} {session : Session} {atlas : Atlas}
    {request : Request} (reflects : Reflects loose session atlas) (short : session.Short request) :
    (session.step request).1 ≠ (atlas.step request).1 := by
  cases request with
  | put table key value =>
      have refused : (session.step (.put table key value)).1 = .stored (.error .forestFull) :=
        congrArg Reply.stored short
      rw [refused, Atlas.step]
      split <;> (intro same; cases same)
  | createNested table key =>
      obtain ⟨present, none⟩ := short
      have refused : (session.step (.createNested table key)).1 = .table .none := by
        simp only [Session.step, none, hand]
      rw [refused, Atlas.step]
      rw [contains_eq, reflects.here, Option.isSome_map] at present
      obtain ⟨⟨value, nested⟩, has⟩ := Option.isSome_iff_exists.mp present
      rw [has]
      cases nested <;> (intro same; cases same)
  | get => exact short.elim
  | contains => exact short.elim
  | erase => exact short.elim
  | nested => exact short.elim

/-- A request for which there are not enough slots leaves all tables as they are. -/
theorem Mirrors.step_short {session : Session} {atlas : Atlas} {request : Request}
    (mirrors : Mirrors session atlas) (short : session.Short request) :
    Mirrors (session.step request).2 atlas := by
  obtain ⟨next, answered, reflects⟩ := mirrors.toReflects.step request
  cases answered with
  | served reply => exact absurd reply (mirrors.reply_ne_of_short short)
  | short _ _ count => exact ⟨reflects, count.trans mirrors.count⟩
  | sunken allowed => exact allowed.elim

namespace Reached

variable {session : Session} {atlas : Atlas}

/-- Whatever the history, the session holds what it should, and its forest can be stored. -/
theorem invariant (reached : Reached session atlas) :
    Mirrors session atlas ∧ Storable session.forest session.handles.toFinset := by
  induction reached with
  | start => exact ⟨mirrors_start, storable_new⟩
  | served request _ roomy ih => exact ⟨(ih.1.step request roomy).2, storable_step ih.2 request⟩
  | refused request _ short ih => exact ⟨ih.1.step_short short, storable_step ih.2 request⟩
  | reloaded before after _ reload ih =>
      rw [reload_eq ih.2] at reload
      cases reload
      exact ⟨ih.1.reloaded, ih.2.copy rfl rfl⟩

theorem mirrors (reached : Reached session atlas) : Mirrors session atlas := reached.invariant.1

/-- A session that was reached goes on through any events, and reaches where they lead. -/
theorem resume (events : List Event) : ∀ {session : Session} {atlas : Atlas},
    Reached session atlas → ∃ replies last next,
      session.resume events = .ok (replies, last) ∧ Reached last next := by
  induction events with
  | nil => exact fun reached => ⟨_, _, _, rfl, reached⟩
  | cons event events ih =>
      intro session atlas reached
      cases event with
      | request request =>
          have stepped : ∃ next, Reached (session.step request).2 next := by
            by_cases short : session.Short request
            · exact ⟨_, reached.refused request short⟩
            · exact ⟨_, reached.served request short⟩
          obtain ⟨next, further⟩ := stepped
          obtain ⟨replies, last, final, done, arrived⟩ := ih further
          exact ⟨_, _, _, resume_request done, arrived⟩
      | reload before after =>
          have reload := reload_eq reached.invariant.2 before after
          obtain ⟨replies, last, final, done, arrived⟩ := ih (reached.reloaded before after reload)
          exact ⟨_, _, _, (resume_reload reload).trans done, arrived⟩

/-- Listed are the keys that the table has. -/
theorem mem_keys (reached : Reached session atlas) (table : Nat) (key : Int32) :
    key ∈ session.keys table ↔ session.forest.contains (session.table table) key = true := by
  rw [keys, mem_entries_keys reached.mirrors.sound (reached.mirrors.member table), contains_eq]

/-- Listed are the entries that are found under their keys. -/
theorem mem_entries_iff (reached : Reached session atlas) (table : Nat) (entry : Entry) :
    entry ∈ session.forest.entries (session.table table) ↔
      session.forest.get? (session.table table) entry.key = some entry.value ∧
        session.forest.nested? (session.table table) entry.key = entry.nested := by
  rw [mem_entries reached.mirrors.sound (reached.mirrors.member table), get?_eq, nested?_eq]
  cases session.forest.under? (session.table table) entry.key with
  | none => simp
  | some content =>
      simp only [Option.some.injEq, Option.map_some, Option.bind_some, Entry.content,
        Prod.ext_iff]

/-- The enumeration of a table is canonical, whatever history of requests and reloads has led to it,
requests that were refused for want of slots included.  Listed are the entries that the table holds by
then, each with the value and the nested table that are found under its key, and no others; no key is
listed twice; the sequences of labels strictly increase.  So tables with the same keys list them in
the same order, be they of one forest or of two with different histories. -/
theorem enumerates (reached : Reached session atlas) (table : Nat) :
    (∀ key value nested, (key, value, nested) ∈ session.listing table ↔
        (atlas.chart table)[key]? = some (value, nested)) ∧
      (∀ entry, entry ∈ session.forest.entries (session.table table) ↔
        session.forest.get? (session.table table) entry.key = some entry.value ∧
          session.forest.nested? (session.table table) entry.key = entry.nested) ∧
      (session.keys table).Nodup ∧
      (session.keys table).Pairwise (fun first second =>
        Label.digits first < Label.digits second) ∧
      ∀ (other : Session) (atlasOther : Atlas) (number : Nat), Reached other atlasOther →
        (∀ key, session.forest.contains (session.table table) key =
          other.forest.contains (other.table number) key) →
        session.keys table = other.keys number := by
  have sound := reached.mirrors.sound
  have member := reached.mirrors.member table
  have ordered : (session.keys table).Pairwise Label.Before :=
    List.pairwise_map.mpr (entries_ordered sound member)
  refine ⟨fun key value nested => reached.mirrors.mem_listing table (key, value, nested),
    reached.mem_entries_iff table, entries_keys_nodup sound member,
    ordered.imp Label.Before.digits_lt, ?_⟩
  intro other atlasOther number reachedOther same
  have soundOther := reachedOther.mirrors.sound
  have memberOther := reachedOther.mirrors.member number
  apply entries_keys_eq sound member soundOther memberOther
  intro key
  rw [← contains_eq, same, contains_eq]

end Reached

/-- Keys that agree in their lowest labels are stored, pushed down and erased, and one of them has a
table below it; the forest is reloaded in between. -/
def jostling : List Event :=
  [.request (.put 0 1025 3), .request (.put 0 1 5), .request (.put 0 33 6), .request (.put 0 (-1) 7),
    .request (.createNested 0 33), .request (.put 1 9 2), .reload [1] [2], .request (.erase 0 1025),
    .request (.erase 0 1), .request (.put 0 1 8)]

/-- The same keys are stored in the opposite order, and nothing else happens. -/
def straightforward : List Event :=
  [.request (.put 0 (-1) 0), .request (.put 0 33 1), .request (.put 0 1 2)]

/-- A negative key, and keys that share their lowest labels, are listed in the same order after both
histories. -/
theorem enumerates_jostling :
    ∃ replies session atlas, start.resume jostling = .ok (replies, session) ∧
      Reached session atlas ∧ session.keys 0 = [1, 33, -1] ∧
      ∃ repliesOther other atlasOther,
        start.resume straightforward = .ok (repliesOther, other) ∧ Reached other atlasOther ∧
        (∀ key, session.forest.contains (session.table 0) key =
          other.forest.contains (other.table 0) key) ∧
        session.keys 0 = other.keys 0 := by
  obtain ⟨replies, session, atlas, done, reached⟩ := Reached.start.resume jostling
  obtain ⟨repliesOther, other, atlasOther, doneOther, reachedOther⟩ :=
    Reached.start.resume straightforward
  have listed : (start.resume jostling).map (·.2.keys 0) = .ok [1, 33, -1] := by
    decide +kernel
  have listedOther : (start.resume straightforward).map (·.2.keys 0) = .ok [1, 33, -1] := by
    decide +kernel
  rw [done] at listed
  rw [doneOther] at listedOther
  have keys : session.keys 0 = [1, 33, -1] := Except.ok.inj listed
  have keysOther : other.keys 0 = [1, 33, -1] := Except.ok.inj listedOther
  have same : ∀ key, session.forest.contains (session.table 0) key =
      other.forest.contains (other.table 0) key := by
    intro key
    rw [Bool.eq_iff_iff, ← reached.mem_keys, ← reachedOther.mem_keys, keys, keysOther]
  exact ⟨replies, session, atlas, done, reached, keys, repliesOther, other, atlasOther, doneOther,
    reachedOther, same, (reached.enumerates 0).2.2.2.2 other atlasOther 0 reachedOther same⟩

end Session

end Forest

end Lexicon

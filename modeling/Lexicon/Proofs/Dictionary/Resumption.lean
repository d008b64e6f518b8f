/-
Module: Lexicon.Proofs.Dictionary.Resumption
Layer: Proofs
Purpose: Where a batch of entries stops, and that going on from there until the end does what adding all
  entries one by one does.
Imports: Lexicon.Proofs.Dictionary.Lifetime, Mathlib.Order.Bounds.Defs
Trusted boundary: none
Main exports: Dictionary.taking, Dictionary.StopsAt, Dictionary.addEntries_eq, Dictionary.resumed,
  Dictionary.Completes, Dictionary.exists_completes, Dictionary.addEntries_resumed
-/
import Lexicon.Proofs.Dictionary.Lifetime
import Mathlib.Order.Bounds.Defs

namespace Lexicon

/-!
A batch is added in pieces: adding stops after the entry that makes compaction necessary, and answers
with the position at which to go on.  The pieces lie side by side, so whoever goes on at each answer has
in the end made the changes of every entry once, in their order.
-/

namespace Dictionary

variable {dictionary : Dictionary} {entries : List BatchEntry}

/-! ### Entries one by one -/

/-- A dictionary after the changes that entries ask for, in their order.  What is refused is left
behind as any refused change is. -/
def taking (dictionary : Dictionary) (entries : List BatchEntry) : Dictionary :=
  ((Session.start dictionary).run (entries.flatMap BatchEntry.requests)).2.dictionary

@[simp] theorem taking_nil (dictionary : Dictionary) : dictionary.taking [] = dictionary := rfl

theorem taking_cons (dictionary : Dictionary) (entry : BatchEntry) (entries : List BatchEntry) :
    dictionary.taking (entry :: entries) = (dictionary.addEntry entry).taking entries := by
  rw [taking, List.flatMap_cons, Session.run_append, Session.run_requests]
  rfl

theorem taking_append (dictionary : Dictionary) (entries more : List BatchEntry) :
    dictionary.taking (entries ++ more) = (dictionary.taking entries).taking more := by
  induction entries generalizing dictionary with
  | nil => rfl
  | cons entry entries ih => rw [List.cons_append, taking_cons, taking_cons, ih]

/-! ### Where a batch stops -/

/-- The first position behind another one that is the end of the entries, or before which an entry made
compaction necessary. -/
def StopsAt (dictionary : Dictionary) (entries : List BatchEntry) (start stop : Nat) : Prop :=
  IsLeast {position | start < position ∧ (position = entries.length ∨
    (dictionary.taking (entries.extract start position)).needsCompaction true = true)} stop

/-- Of some entries as many are processed as it takes until compaction is necessary, at least one, and
else all of them. -/
theorem addEntriesFrom_eq (entries : List BatchEntry) (present : entries ≠ []) :
    ∀ (index : Nat) (dictionary : Dictionary), ∃ count,
      addEntriesFrom index entries dictionary =
        (index + count, dictionary.taking (entries.take count)) ∧
      IsLeast {count | 0 < count ∧ (count = entries.length ∨
        (dictionary.taking (entries.take count)).needsCompaction true = true)} count := by
  induction entries with
  | nil => exact absurd rfl present
  | cons entry entries ih =>
      intro index dictionary
      have one : dictionary.taking ((entry :: entries).take 1) = dictionary.addEntry entry := by
        rw [List.take_succ_cons, List.take_zero, taking_cons, taking_nil]
      have first : ∀ count ∈ {count | 0 < count ∧ (count = (entry :: entries).length ∨
          (dictionary.taking ((entry :: entries).take count)).needsCompaction true = true)},
          1 ≤ count := fun count inside => inside.1
      rw [addEntriesFrom]
      split
      next necessary =>
        exact ⟨1, by rw [one], ⟨Nat.one_pos, .inr (by rw [one, necessary])⟩, first⟩
      next silent =>
        by_cases last : entries = []
        · subst last
          exact ⟨1, by rw [one]; rfl, ⟨Nat.one_pos, .inl rfl⟩, first⟩
        · obtain ⟨count, processed, ⟨positive, stops⟩, least⟩ :=
            ih last (index + 1) (dictionary.addEntry entry)
          have rest : ∀ count, dictionary.taking ((entry :: entries).take (count + 1)) =
              (dictionary.addEntry entry).taking (entries.take count) := fun count => by
            rw [List.take_succ_cons, taking_cons]
          refine ⟨count + 1, ?_, ⟨Nat.succ_pos count, ?_⟩, ?_⟩
          · rw [processed, rest, Nat.add_right_comm, Nat.add_assoc]
          · rw [rest, List.length_cons, Nat.add_right_cancel_iff]
            exact stops
          · rintro (_ | earlier) ⟨nonzero, ends⟩
            · exact absurd nonzero (Nat.lt_irrefl 0)
            · rw [rest, List.length_cons, Nat.add_right_cancel_iff] at ends
              refine Nat.succ_le_succ ?_
              by_cases zero : earlier = 0
              · -- The first entry alone neither is all of them nor makes compaction necessary.
                subst zero
                rcases ends with all | necessary
                · exact absurd (List.length_eq_zero_iff.mp all.symm) last
                · exact absurd necessary silent
              · exact least ⟨Nat.pos_of_ne_zero zero, ends⟩

/-- Adding stops where it should, with the changes of the entries before that position. -/
theorem addEntries_eq (dictionary : Dictionary) {start : Nat} (inside : start < entries.length) :
    ∃ stop, dictionary.addEntries entries start =
        (stop, dictionary.taking (entries.extract start stop)) ∧
      dictionary.StopsAt entries start stop := by
  have remain : entries.drop start ≠ [] := by
    rw [ne_eq, List.drop_eq_nil_iff]
    exact Nat.not_le_of_lt inside
  obtain ⟨count, processed, ⟨positive, stops⟩, least⟩ :=
    addEntriesFrom_eq (entries.drop start) remain start dictionary
  have piece : ∀ count, entries.extract start (start + count) = (entries.drop start).take count :=
    fun count => by rw [List.extract_eq_take_drop, Nat.add_sub_cancel_left]
  have length : (entries.drop start).length = entries.length - start := List.length_drop
  refine ⟨start + count, ?_, ⟨Nat.lt_add_of_pos_right positive, ?_⟩, ?_⟩
  · rw [addEntries, if_neg (Nat.not_le_of_lt inside), processed, piece]
  · rw [piece]
    exact stops.imp (fun all => by omega) id
  · rintro position ⟨behind, ends⟩
    obtain ⟨further, rfl⟩ := Nat.exists_eq_add_of_lt behind
    rw [Nat.add_assoc, piece] at ends
    rw [Nat.add_assoc]
    exact Nat.add_le_add_left
      (least ⟨Nat.succ_pos further, ends.imp (fun all => by omega) id⟩) start

/-- It stops at the end at the latest. -/
theorem StopsAt.le_length {start stop : Nat} (stops : dictionary.StopsAt entries start stop)
    (inside : start < entries.length) : stop ≤ entries.length :=
  stops.2 ⟨inside, .inl rfl⟩

/-! ### Going on -/

/-- Goes on at a position. -/
def resume (entries : List BatchEntry) : Nat × Dictionary → Nat × Dictionary
  | (position, dictionary) => dictionary.addEntries entries position

/-- Pieces that lie side by side are one piece. -/
theorem extract_append (entries : List BatchEntry) {start middle stop : Nat}
    (before : start ≤ middle) (behind : middle ≤ stop) :
    entries.extract start middle ++ entries.extract middle stop = entries.extract start stop := by
  obtain ⟨first, rfl⟩ := Nat.exists_eq_add_of_le before
  obtain ⟨second, rfl⟩ := Nat.exists_eq_add_of_le behind
  simp only [List.extract_eq_take_drop]
  rw [Nat.add_sub_cancel_left, Nat.add_sub_cancel_left, Nat.add_assoc, Nat.add_sub_cancel_left,
    List.take_add, List.drop_drop]

theorem extract_self (entries : List BatchEntry) (start : Nat) : entries.extract start start = [] := by
  rw [List.extract_eq_take_drop, Nat.sub_self, List.take_zero]

theorem extract_length (entries : List BatchEntry) (start : Nat) :
    entries.extract start entries.length = entries.drop start := by
  rw [List.extract_eq_take_drop, List.take_of_length_le (Nat.le_of_eq List.length_drop)]

/-- Where someone is, and with which dictionary, who began at a position and went on at each answer. -/
def resumed (dictionary : Dictionary) (entries : List BatchEntry) (start calls : Nat) :
    Nat × Dictionary :=
  (resume entries)^[calls] (start, dictionary)

@[simp] theorem resumed_zero (dictionary : Dictionary) (entries : List BatchEntry) (start : Nat) :
    dictionary.resumed entries start 0 = (start, dictionary) := rfl

/-- After the first call it is as if one began where it stopped. -/
theorem resumed_succ {start stop : Nat} {after : Dictionary}
    (call : dictionary.addEntries entries start = (stop, after)) (calls : Nat) :
    dictionary.resumed entries start (calls + 1) = after.resumed entries stop calls := by
  rw [resumed, Function.iterate_succ_apply, resume, call, resumed]

/-- Whoever goes on at each answer reaches the end with some number of calls. -/
structure Completes (dictionary : Dictionary) (entries : List BatchEntry) (start calls : Nat) :
    Prop where
  /-- There are no more calls than entries. -/
  bounded : calls ≤ entries.length - start
  /-- Before the last call the end is not reached. -/
  unfinished : ∀ count < calls, (dictionary.resumed entries start count).1 < entries.length
  /-- Each call stops further on. -/
  onward : ∀ count < calls, (dictionary.resumed entries start count).1 <
    (dictionary.resumed entries start (count + 1)).1
  /-- In between the entries before the position have been added one by one. -/
  between : ∀ count ≤ calls, start ≤ (dictionary.resumed entries start count).1 ∧
    (dictionary.resumed entries start count).2 =
      dictionary.taking (entries.extract start (dictionary.resumed entries start count).1)
  /-- The last call reaches the end. -/
  ends : (dictionary.resumed entries start calls).1 = entries.length

/-- At the end no call is left to be made. -/
theorem completes_length (dictionary : Dictionary) (entries : List BatchEntry) :
    dictionary.Completes entries entries.length 0 := by
  refine ⟨Nat.zero_le _, nofun, nofun, fun count none => ?_, rfl⟩
  obtain rfl := Nat.le_zero.mp none
  exact ⟨Nat.le_refl _, by rw [resumed_zero, extract_self, taking_nil]⟩

/-- A call comes before those with which its answer is gone on from. -/
theorem Completes.before {start stop calls : Nat} (inside : start < entries.length)
    (call : dictionary.addEntries entries start =
      (stop, dictionary.taking (entries.extract start stop)))
    (behind : start < stop) (within : stop ≤ entries.length)
    (completes : (dictionary.taking (entries.extract start stop)).Completes entries stop calls) :
    dictionary.Completes entries start (calls + 1) := by
  have next := resumed_succ call
  refine ⟨?_, ?_, ?_, ?_, by rw [next, completes.ends]⟩
  · have := completes.bounded
    omega
  · rintro (_ | count) before
    · exact inside
    · rw [next]
      exact completes.unfinished count (Nat.lt_of_succ_lt_succ before)
  · rintro (_ | count) before
    · rw [next]
      have further := (completes.between 0 (Nat.zero_le _)).1
      exact Nat.lt_of_lt_of_le behind further
    · rw [next, next]
      exact completes.onward count (Nat.lt_of_succ_lt_succ before)
  · rintro (_ | count) before
    · exact ⟨Nat.le_refl start, by rw [resumed_zero, extract_self, taking_nil]⟩
    · obtain ⟨further, same⟩ := completes.between count (Nat.le_of_succ_le_succ before)
      rw [next]
      refine ⟨Nat.le_trans (Nat.le_of_lt behind) further, ?_⟩
      rw [same, ← taking_append, extract_append entries (Nat.le_of_lt behind) further]

/-- The end is always reached.  Each call leaves fewer entries. -/
theorem exists_completes (entries : List BatchEntry) (dictionary : Dictionary) {start : Nat}
    (within : start ≤ entries.length) : ∃ calls, dictionary.Completes entries start calls := by
  rcases Nat.lt_or_eq_of_le within with inside | rfl
  · obtain ⟨stop, call, stops⟩ := addEntries_eq dictionary inside
    obtain ⟨behind, -⟩ := stops.1
    obtain ⟨calls, completes⟩ := exists_completes entries
      (dictionary.taking (entries.extract start stop)) (stops.le_length inside)
    exact ⟨calls + 1, completes.before inside call behind (stops.le_length inside)⟩
  · exact ⟨0, completes_length dictionary entries⟩
termination_by entries.length - start

/-- A batch that is added in pieces loses nothing and repeats nothing.  Adding from a position on
makes the changes of the entries up to the position that is answered, one by one, where what is refused
is skipped.  That position is the first one behind the start before which an entry made compaction
necessary, or the end.  Going on at each answer always reaches the end, with no more calls than there
are entries, and leaves behind what adding all the entries one by one does. -/
theorem addEntries_resumed (dictionary : Dictionary) {start : Nat}
    (inside : start < entries.length) :
    (∃ stop, dictionary.addEntries entries start =
        (stop, dictionary.taking (entries.extract start stop)) ∧
      dictionary.StopsAt entries start stop ∧ start < stop ∧ stop ≤ entries.length) ∧
    ∃ calls, dictionary.Completes entries start calls ∧
      dictionary.resumed entries start calls =
        (entries.length, dictionary.taking (entries.drop start)) := by
  refine ⟨?_, ?_⟩
  · obtain ⟨stop, call, stops⟩ := addEntries_eq dictionary inside
    exact ⟨stop, call, stops, stops.1.1, stops.le_length inside⟩
  · obtain ⟨calls, completes⟩ := exists_completes entries dictionary (Nat.le_of_lt inside)
    have state := (completes.between calls (Nat.le_refl calls)).2
    rw [completes.ends, extract_length] at state
    exact ⟨calls, completes, Prod.ext completes.ends state⟩

/-- An empty dictionary with room for three words. -/
def confined : Dictionary :=
  empty ⟨.historical, "en", default⟩ { Configuration.standard with maxUnigrams := 3 }

/-- Five entries.  One word follows another and comes with a shortcut, the fourth one is refused where
there is no room, and the last one stores the first word anew, as a follower. -/
def crowd : List BatchEntry :=
  [{ word := [97], probability := 7 },
    { previous := some [97], word := [98], probability := 8, bigramProbability := 9, timestamp := 20,
      shortcut := some [99, 100], shortcutProbability := 6, blacklisted := true },
    { word := [99], probability := 7 },
    { word := [100], probability := 7 },
    { previous := some [98], word := [97], probability := 5, bigramProbability := 4, timestamp := 30,
      notAWord := true }]

/-- The third entry fills the dictionary, and from then on adding stops after each one.  In the end all
that the entries say about two of the words and about what follows them is there, and the refused word
is not. -/
theorem addEntries_resumed_crowd :
    0 < crowd.length ∧ (confined.addEntries crowd 0).1 = 3 ∧ (confined.resumed crowd 0 2).1 = 4 ∧
      ∃ calls, confined.Completes crowd 0 calls ∧
        (confined.resumed crowd 0 calls).1 = 5 ∧
        ((confined.resumed crowd 0 calls).2.property [97]).value = some
          { word := [97]
            unigram := { probability := 5, notAWord := true, history := .typed 30 }
            bigrams := [{ target := [98], probability := 9, history := .typed 20 }] } ∧
        ((confined.resumed crowd 0 calls).2.property [98]).value = some
          { word := [98]
            unigram :=
              { probability := 8
                blacklisted := true
                history := .typed 20
                shortcuts := [{ target := [99, 100], probability := 6 }] }
            bigrams := [{ target := [97], probability := 4, history := .typed 30 }] } ∧
        ((confined.resumed crowd 0 calls).2.bigramProbability [97] [98]).value = 9 ∧
        ((confined.resumed crowd 0 calls).2.property [100]).value = none := by
  obtain ⟨calls, completes, done⟩ := (addEntries_resumed confined (by decide : 0 < crowd.length)).2
  refine ⟨by decide, by decide +kernel, by decide +kernel, calls, completes, ?_⟩
  rw [done]
  decide +kernel

end Dictionary

end Lexicon

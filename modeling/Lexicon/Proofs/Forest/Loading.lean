/-
Module: Lexicon.Proofs.Forest.Loading
Layer: Proofs
Purpose: A forest that was read from any accepted bytes answers every sequence of requests as
  independent finite maps do that begin with the tables that its root leads to.
Imports: Lexicon.Proofs.Forest.Acceptance, Lexicon.Proofs.Forest.Bounds,
  Lexicon.Proofs.Forest.Refusal, Lexicon.Proofs.Forest.Reloading
Trusted boundary: none
Main exports: Forest.Reaches, Forest.Coherent.restrict, Forest.Session.charted,
  Forest.Session.Follows, Forest.Session.follows_of_read
-/
import Lexicon.Proofs.Forest.Acceptance
import Lexicon.Proofs.Forest.Bounds
import Lexicon.Proofs.Forest.Refusal
import Lexicon.Proofs.Forest.Reloading

namespace Lexicon

/-!
Whoever wrote the bytes of a forest may have put anything into the slots that are not reached from
its root: entries that share their nested tables, nodes that lead back to themselves.  None of that
matters.  What is reached is a coherent forest, everything else is never looked at, and since no slot
of it counts as free, nothing is ever stored there either.
-/

namespace Forest

/-! ### What the root leads to -/

/-- The tables that the root leads to, from a key to what is nested below it. -/
inductive Reaches (forest : Forest) : Table → Prop
  | top : Reaches forest root
  | nested {table nested : Table} {key : Int32} (above : Reaches forest table)
      (has : forest.nested? table key = some nested) : Reaches forest nested

section Restriction

variable {loose : Prop} {forest : Forest} {tables fewer : Finset Table} {table : Table}

/-- Some of the tables that stand in an arena stand there without the others. -/
theorem Standing.restrict {arena : Arena} {tree : Table → Tree}
    (laid : Standing loose arena tables tree) (among : fewer ⊆ tables) :
    Standing loose arena fewer tree := by
  refine ⟨fun table member => laid.node table (among member),
    fun table member => laid.held table (among member),
    fun table member => laid.filed table (among member), ?_, laid.sane⟩
  intro index
  have sole := laid.sole index
  have least := Finset.sum_le_sum_of_subset
    (f := fun table : Table => covers table.slot 1 index + (tree table).claims index) among
  omega

/-- A forest stays coherent when tables that nothing leads to are left out of account. -/
theorem Coherent.restrict (sound : Coherent loose forest tables) (among : fewer ⊆ tables)
    (rooted : root ∈ fewer)
    (closed : ∀ {table nested : Table} {key : Int32}, table ∈ fewer →
      forest.nested? table key = some nested → nested ∈ fewer) : Coherent loose forest fewer := by
  obtain ⟨tree, laid⟩ := sound.laid
  refine ⟨⟨tree, laid.restrict among⟩, rooted, ?_, ?_⟩
  · intro table member key value nested has
    have led : forest.nested? table key = some nested := by rw [nested?_eq, has, Option.bind_some]
    exact ⟨closed member led, (sound.linked (among member) has).2⟩
  · exact fun inFirst inSecond => sound.owned (among inFirst) (among inSecond)

/-- The root leads only to tables of the forest. -/
theorem Coherent.mem_of_reaches (sound : Coherent loose forest tables)
    (reached : forest.Reaches table) : table ∈ tables := by
  induction reached with
  | top => exact sound.rooted
  | nested _ has ih => exact sound.nested_mem ih has

open Classical in
/-- The tables that the root leads to are coherent, and they can be listed, the root first. -/
theorem Coherent.exists_handles (sound : Coherent loose forest tables) :
    ∃ handles : List Table, handles.head? = some root ∧ handles.Nodup ∧
      (∀ table, table ∈ handles ↔ forest.Reaches table) ∧
      Coherent loose forest handles.toFinset := by
  let reached := tables.filter forest.Reaches
  have whole : ∀ table, table ∈ root :: (reached.erase root).toList ↔ forest.Reaches table := by
    intro table
    rw [List.mem_cons, Finset.mem_toList, Finset.mem_erase, Finset.mem_filter]
    constructor
    · rintro (rfl | ⟨_, _, led⟩)
      · exact .top
      · exact led
    · intro led
      by_cases top : table = root
      · exact Or.inl top
      · exact Or.inr ⟨top, sound.mem_of_reaches led, led⟩
  refine ⟨root :: (reached.erase root).toList, rfl, ?_, whole, sound.restrict ?_ ?_ ?_⟩
  · refine List.nodup_cons.mpr ⟨?_, Finset.nodup_toList _⟩
    rw [Finset.mem_toList]
    exact Finset.notMem_erase root reached
  · intro table member
    exact sound.mem_of_reaches ((whole table).mp (List.mem_toFinset.mp member))
  · exact List.mem_toFinset.mpr ((whole root).mpr .top)
  · intro table nested key member has
    have led := (whole table).mp (List.mem_toFinset.mp member)
    exact List.mem_toFinset.mpr ((whole nested).mpr (.nested led has))

end Restriction

namespace Session

/-! ### The maps to begin with -/

/-- The atlas of the tables that were handed out: the content of each of them is what it lists. -/
def charted (session : Session) : Atlas :=
  ⟨(List.range session.handles.length).map fun number => .ofList (session.listing number)⟩

section Charted

variable {loose : Prop} {session : Session} {number : Nat}

theorem charts_charted (session : Session) :
    session.charted.charts.length = session.handles.length := by
  rw [charted, List.length_map, List.length_range]

theorem table_of_lt (inside : number < session.handles.length) :
    session.table number = session.handles.getD number root := by
  rw [table, Atlas.resolve, if_pos inside]

theorem getD_charted (inside : number < session.handles.length) :
    session.charted.charts.getD number ∅ = .ofList (session.listing number) := by
  simp only [charted, List.getD_eq_getElem?_getD, List.getElem?_map,
    List.getElem?_range inside, Option.map_some, Option.getD_some]

/-- A table's part of the atlas says about a key what the table has under it. -/
theorem getElem?_listing (sound : Coherent loose session.forest session.handles.toFinset)
    (number : Nat) (key : Int32) :
    (Std.ExtHashMap.ofList (session.listing number) : Chart)[key]? =
      (session.forest.under? (session.table number) key).map fun content =>
        (content.1, content.2.map session.handles.idxOf) := by
  have member := table_mem sound.rooted number
  have keys : (session.listing number).map Prod.fst =
      (session.forest.entries (session.table number)).map (·.key) := by
    rw [listing, List.map_map]
    rfl
  have listed := mem_entries_keys sound member key
  rw [← keys] at listed
  cases has : session.forest.under? (session.table number) key with
  | none =>
      rw [has] at listed
      apply Std.ExtHashMap.getElem?_ofList_of_contains_eq_false
      rw [← Bool.not_eq_true, List.contains_iff_mem, listed]
      exact Bool.false_ne_true
  | some content =>
      have among : (⟨key, content.1, content.2⟩ : Entry) ∈
          session.forest.entries (session.table number) :=
        (mem_entries sound member _).mpr has
      refine Std.ExtHashMap.getElem?_ofList_of_mem (beq_self_eq_true key) ?_
        (List.mem_map.mpr ⟨_, among, rfl⟩)
      have distinct := entries_keys_nodup sound member
      rw [← keys] at distinct
      exact (List.pairwise_map.mp distinct).imp fun differ => beq_eq_false_iff_ne.mpr differ

/-- A session reflects the atlas of its tables. -/
theorem reflects_charted (sound : Coherent loose session.forest session.handles.toFinset)
    (top : session.handles.head? = some root) (distinct : session.handles.Nodup) :
    Reflects loose session session.charted := by
  have handed : ∀ {number key value nested},
      session.forest.under? (session.table number) key = some (value, some nested) →
        nested ∈ session.handles := by
    intro number key value nested has
    exact List.mem_toFinset.mp (sound.linked (table_mem sound.rooted number) has).1
  refine ⟨sound, top, distinct, (charts_charted session).symm, ?_, ?_⟩
  · intro number inside key value nested has
    rw [charts_charted] at inside ⊢
    rw [getD_charted inside, getElem?_listing sound] at has
    obtain ⟨⟨stored, below⟩, here, same⟩ := Option.map_eq_some_iff.mp has
    obtain ⟨_, numbered⟩ := Prod.mk.inj same
    obtain ⟨table, rfl, rfl⟩ := Option.map_eq_some_iff.mp numbered
    exact List.idxOf_lt_length_of_mem (handed here)
  · intro number inside key
    rw [charts_charted] at inside
    rw [getD_charted inside, getElem?_listing sound, Option.map_map,
      ← table_of_lt inside]
    cases here : session.forest.under? (session.table number) key with
    | none => rfl
    | some content =>
        obtain ⟨value, nested⟩ := content
        cases nested with
        | none => rfl
        | some nested =>
            have among := List.idxOf_lt_length_of_mem (handed here)
            simp only [Option.map_some, Function.comp_apply, translate,
              List.getD_eq_getElem _ _ among, List.getElem_idxOf]

end Charted

/-! ### Requests with checks -/

namespace Checked

/-- Answers a request, where no slot outside of the arena is used. -/
def step (session : Session) : Request → Option (Reply × Session)
  | .put table key value => do
      let (outcome, forest) ←
        Forest.Checked.put session.forest (session.table table) key value
      some (.stored outcome, ⟨forest, session.handles⟩)
  | .get table key => do
      let found ← Forest.Checked.get? session.forest (session.table table) key
      some (.value found, session)
  | .contains table key => do
      let answer ← Forest.Checked.contains session.forest (session.table table) key
      some (.holds answer, session)
  | .erase table key => do
      let (erased, forest) ← Forest.Checked.erase session.forest (session.table table) key
      some (.holds erased, ⟨forest, session.handles⟩)
  | .nested table key => do
      let nested ← Forest.Checked.nested? session.forest (session.table table) key
      some (hand session.forest session.handles nested)
  | .createNested table key => do
      let (nested, forest) ←
        Forest.Checked.createNested? session.forest (session.table table) key
      some (hand forest session.handles nested)

/-- Answers requests one after the other, where no slot outside of the arena is used. -/
def run (session : Session) : List Request → Option (List Reply × Session)
  | [] => some ([], session)
  | request :: requests => do
      let (reply, session) ← step session request
      let (replies, session) ← run session requests
      some (reply :: replies, session)

/-- The entries of a table, where no slot outside of the arena is used. -/
def listing (session : Session) (table : Nat) : Option (List (Int32 × Nat × Option Nat)) := do
  let entries ← Forest.Checked.entries session.forest (session.table table)
  some (entries.map fun entry => (entry.key, entry.value, entry.nested.map session.handles.idxOf))

end Checked

section Steps

variable {loose : Prop} {session : Session} {atlas : Atlas}

/-- No request uses a slot outside of the arena, and then no later one does. -/
theorem Reflects.checked_step (reflects : Reflects loose session atlas)
    (anchored : session.forest.arena.Anchored) (request : Request) :
    Checked.step session request = some (session.step request) ∧
      (session.step request).2.forest.arena.Anchored := by
  have sound := reflects.sound
  cases request with
  | put table key value =>
      obtain ⟨same, after⟩ := sound.checked_put (reflects.member table) anchored key value
      exact ⟨by rw [Checked.step, same]; rfl, after⟩
  | get table key =>
      refine ⟨?_, anchored⟩
      rw [Checked.step, sound.checked_get? (reflects.member table)]
      rfl
  | contains table key =>
      refine ⟨?_, anchored⟩
      rw [Checked.step, sound.checked_contains (reflects.member table)]
      rfl
  | erase table key =>
      obtain ⟨same, after⟩ := sound.checked_erase (reflects.member table) anchored key
      exact ⟨by rw [Checked.step, same]; rfl, after⟩
  | nested table key =>
      rw [Checked.step, sound.checked_nested? (reflects.member table), Session.step, forest_hand]
      exact ⟨rfl, anchored⟩
  | createNested table key =>
      obtain ⟨same, after⟩ := sound.checked_createNested (reflects.member table) anchored key
      rw [Checked.step, same]
      refine ⟨rfl, ?_⟩
      rw [Session.step, forest_hand]
      exact after

/-- The same for a run of requests. -/
theorem Reflects.checked_run (reflects : Reflects loose session atlas)
    (anchored : session.forest.arena.Anchored) (requests : List Request) :
    Checked.run session requests = some (session.run requests) := by
  induction requests generalizing session atlas with
  | nil => rfl
  | cons request requests ih =>
      obtain ⟨same, after⟩ := reflects.checked_step anchored request
      obtain ⟨_, _, reflectsAfter⟩ := reflects.step request
      have rest := ih reflectsAfter after
      simp only [Checked.run, same, rest, Option.bind_eq_bind, Option.bind_some, Session.run]

/-- What is seen of a session beside an atlas: the same tables with the same content.  No two keys
share a nested table, no listing uses a slot outside of the arena, and only where the path of a key
ends below the last level a value that fits is refused for that. -/
structure Pictures (session : Session) (atlas : Atlas) : Prop where
  distinct : session.handles.Nodup
  length : session.handles.length = atlas.charts.length
  listed : ∀ table item,
    item ∈ session.listing table ↔ (atlas.chart table)[item.1]? = some item.2
  ordered : ∀ table,
    (session.listing table).Pairwise fun first second => Label.Before first.1 second.1
  checked : ∀ table, Checked.listing session table = some (session.listing table)
  owned : ∀ {first second : Nat} {key other : Int32} {nested : Table},
    session.forest.nested? (session.table first) key = some nested →
    session.forest.nested? (session.table second) other = some nested →
    session.table first = session.table second ∧ key = other
  sunken : ∀ table key {value}, value ≤ maxValue →
    ((session.forest.put (session.table table) key value).1 =
      .error (.format (.keyTooDeep key)) ↔ session.forest.sinks (session.table table) key = true)

theorem Reflects.pictures (reflects : Reflects loose session atlas) : Pictures session atlas := by
  have sound := reflects.sound
  refine ⟨reflects.distinct, reflects.length, reflects.mem_listing, reflects.listing_ordered, ?_, ?_,
    fun table key _ fits => put_tooDeep_iff sound (reflects.member table) key fits⟩
  · intro table
    rw [Checked.listing, sound.checked_entries (reflects.member table)]
    rfl
  · intro first second key other nested hasFirst hasSecond
    rw [nested?_eq] at hasFirst hasSecond
    obtain ⟨⟨value, _⟩, here, rfl⟩ := Option.bind_eq_some_iff.mp hasFirst
    obtain ⟨⟨further, _⟩, there, rfl⟩ := Option.bind_eq_some_iff.mp hasSecond
    exact sound.owned (reflects.member first) (reflects.member second) here there

end Steps

/-! ### Every run -/

/-- A session follows an atlas through some requests: before each of them and after the last one the
atlas pictures it, no request uses a slot outside of the arena, and what comes of each of them is what
the atlas says, or one of the two refusals that leave the atlas as it is. -/
def Follows (session : Session) (atlas : Atlas) : List Request → Prop
  | [] => Pictures session atlas
  | request :: requests =>
      Pictures session atlas ∧ Checked.step session request = some (session.step request) ∧
        ∃ next, Answered True session atlas request next ∧
          Follows (session.step request).2 next requests

theorem Reflects.follows {session : Session} {atlas : Atlas} (reflects : Reflects True session atlas)
    (anchored : session.forest.arena.Anchored) (requests : List Request) :
    session.Follows atlas requests := by
  induction requests generalizing session atlas with
  | nil => exact reflects.pictures
  | cons request requests ih =>
      obtain ⟨checked, anchoredAfter⟩ := reflects.checked_step anchored request
      obtain ⟨next, answered, reflectsAfter⟩ := reflects.step request
      exact ⟨reflects.pictures, checked, next, answered, ih reflectsAfter anchoredAfter⟩

/-- The tables that the root of a forest that was read leads to can be listed, and are as the atlas
that is charted of them says. -/
theorem exists_reflects_of_read {cursor next : Cursor} {forest : Forest}
    (accepted : read cursor = .ok (forest, next)) :
    ∃ handles : List Table, handles.head? = some root ∧ handles.Nodup ∧
      (∀ table, table ∈ handles ↔ forest.Reaches table) ∧
      Reflects True ⟨forest, handles⟩ (charted ⟨forest, handles⟩) := by
  obtain ⟨tables, sound⟩ := yields_read cursor next forest accepted
  obtain ⟨handles, top, distinct, whole, soundReached⟩ := sound.exists_handles
  exact ⟨handles, top, distinct, whole, reflects_charted soundReached top distinct⟩

/-- A forest that was read from any bytes that are accepted is used as independent finite maps are.
They begin with the tables that the root leads to, and each request does to them what it does to the
forest.  No two keys ever share a nested table, and no slot outside of the arena is used, provided
that nodes without children begin in it.  A value that fits is refused only where the path of its key
ends at a node below the last level, and then the forest is just as it was before.  Otherwise a request
can only fail when fewer than thirty-two slots are left to be had, and that leaves the maps as they
are. -/
theorem follows_of_read {cursor next : Cursor} {forest : Forest}
    (accepted : read cursor = .ok (forest, next)) (anchored : forest.arena.Anchored) :
    ∃ handles : List Table, handles.head? = some root ∧ handles.Nodup ∧
      (∀ table, table ∈ handles ↔ forest.Reaches table) ∧
      ∀ requests, Follows ⟨forest, handles⟩ (charted ⟨forest, handles⟩) requests := by
  obtain ⟨handles, top, distinct, whole, reflects⟩ := exists_reflects_of_read accepted
  exact ⟨handles, top, distinct, whole, reflects.follows anchored⟩

/-- Below label 0 of the root there are nodes down to below the last level, and key 1 has a table.
Nothing leads to two of the slots: one is an entry with the same table, and one is its own child. -/
def burdened : Forest :=
  { arena := .ofSlots #[.node ((LabelSet.singleton 0).insert 1) 1 0,
      .node (LabelSet.singleton 0) 3 0, .entry 1 5 (some 10), .node (LabelSet.singleton 0) 4 0,
      .node (LabelSet.singleton 0) 5 0, .node (LabelSet.singleton 0) 6 0,
      .node (LabelSet.singleton 0) 7 0, .node (LabelSet.singleton 0) 8 0, Slot.empty,
      .entry 7 7 (some 10), .node (LabelSet.singleton 3) 11 0, .entry 3 9 none,
      .node (LabelSet.singleton 0) 12 0]
    count := 2 }

/-- That is accepted and used as finite maps are.  Key 0 cannot be stored at the root, since its path
ends below the last level; in the nested table it can. -/
theorem follows_of_read_burdened :
    ∃ next handles, read (burdened.amid [] []) = .ok (burdened, next) ∧
      burdened.arena.Anchored ∧
      (∀ requests, Follows ⟨burdened, handles⟩ (charted ⟨burdened, handles⟩) requests) ∧
      (burdened.put root 0 7).1 = .error (.format (.keyTooDeep 0)) ∧
      (⟨10⟩ : Table) ∈ handles ∧ (burdened.put ⟨10⟩ 0 7).1 = .ok () := by
  have takes : CheckedReader.Takes read burdened.encode burdened :=
    takes_read_ofSlots (by decide) (by decide) (by decide +kernel) rfl (by decide +kernel)
      (by decide)
  have accepted := takes _ [] (shows_amid burdened [] [])
  have anchored : burdened.arena.Anchored := .of_slots (by decide +kernel)
  obtain ⟨handles, top, _, whole, follows⟩ := follows_of_read accepted anchored
  have first : table ⟨burdened, handles⟩ 0 = root := table_zero top
  have nested : burdened.nested? root 1 = some ⟨10⟩ := by decide +kernel
  have sinks : burdened.sinks root 0 = true := by decide +kernel
  have sunken := (follows []).sunken 0 0 (show 7 ≤ maxValue by decide)
  rw [first] at sunken
  exact ⟨_, handles, accepted, anchored, follows, sunken.mpr sinks,
    (whole _).mpr (.nested .top nested), by decide +kernel⟩

end Session

end Forest

end Lexicon

/-
Module: Lexicon.Proofs.Forest.Tiling
Layer: Proofs
Purpose: Requests only move slots between the tables and what is to be had, so that the tables, their
  runs and the free runs tile the arena of every forest that was put together by requests.
Imports: Lexicon.Proofs.Forest.Acceptance, Lexicon.Proofs.Forest.Reloading
Trusted boundary: none
Main exports: Forest.tally, Forest.Shift, Forest.Thriving, Forest.Standing.exists_shift_put,
  Forest.Standing.exists_shift_erase, Forest.Standing.exists_shift_createNested, Extent.Tile,
  Forest.Session.tile_run
-/
import Lexicon.Proofs.Forest.Acceptance
import Lexicon.Proofs.Forest.Reloading

namespace Lexicon

/-!
That no slot is held twice is part of what it means for tables to stand in an arena.  That none is
lost is not: where a forest was read from bytes, there are slots that nobody holds.  But no request
loses a slot either.  Counted over all who may hold it, a slot has as many holders after a request as
before, and a slot without any is left as it is.
-/

namespace Forest

/-! ### Who holds a slot -/

/-- How often a slot is held by the tables that stand in an arena, or is to be had. -/
def tally (arena : Arena) (tables : Finset Table) (tree : Table → Tree) (index : Nat) : Nat :=
  ∑ table ∈ tables, (covers table.slot 1 index + (tree table).claims index) + arena.available index

/-- What may happen to the tables in an arena: they stand in it again, each slot has as many holders
as before, and slots without any are left as they are. -/
structure Shift (loose : Prop) (before after : Arena) (tables wider : Finset Table)
    (tree grown : Table → Tree) : Prop where
  standing : Standing loose after wider grown
  tally : ∀ index, tally after wider grown index = tally before tables tree index
  strays : ∀ index, Forest.tally before tables tree index = 0 →
    after.slot index = before.slot index

namespace Shift

variable {loose : Prop} {first second third : Arena} {tables wider widest : Finset Table}
  {tree grown last : Table → Tree}

theorem refl (laid : Standing loose first tables tree) :
    Shift loose first first tables tables tree tree :=
  ⟨laid, fun _ => rfl, fun _ _ => rfl⟩

theorem trans (before : Shift loose first second tables wider tree grown)
    (after : Shift loose second third wider widest grown last) :
    Shift loose first third tables widest tree last := by
  refine ⟨after.standing, fun index => (after.tally index).trans (before.tally index), ?_⟩
  intro index none
  rw [after.strays index ((before.tally index).trans none), before.strays index none]

end Shift

/-- The trees of some tables are thrifty. -/
def Thriving (tables : Finset Table) (tree : Table → Tree) : Prop :=
  ∀ table ∈ tables, (tree table).Thrifty 0

namespace Thriving

variable {tables : Finset Table} {tree : Table → Tree} {table : Table}

theorem change (thriving : Thriving tables tree) {new : Tree}
    (sparing : table ∈ tables → (tree table).Sparing new 0) :
    Thriving tables (Function.update tree table new) := by
  intro other among
  by_cases same : other = table
  · subst same
    rw [Function.update_self]
    exact (sparing among).thrifty (thriving other among)
  · rw [Function.update_of_ne same]
    exact thriving other among

theorem extend (thriving : Thriving tables tree) (fresh : table ∉ tables) :
    Thriving (insert table tables) (Function.update tree table Tree.bare) := by
  refine (Finset.forall_mem_insert _ _ _).mpr ⟨?_, thriving.change fun member => absurd member fresh⟩
  rw [Function.update_self]
  exact Tree.thrifty_bare 0

end Thriving

namespace Standing

variable {loose : Prop} {arena after : Arena} {tables : Finset Table} {tree : Table → Tree}
  {table : Table}

/-- A slot that nobody holds is in no run of a table, is not where it stands, and is not to be had. -/
theorem unheld (member : table ∈ tables) {index : Nat} (none : tally arena tables tree index = 0) :
    index ≠ table.slot ∧ (tree table).claims index = 0 ∧ arena.available index = 0 := by
  have least := Finset.single_le_sum
    (f := fun table : Table => covers table.slot 1 index + (tree table).claims index)
    (fun _ _ => Nat.zero_le _) member
  simp only [tally] at none
  refine ⟨?_, by omega, by omega⟩
  rintro rfl
  rw [covers_self] at least
  omega

/-- A change of one table moves slots between it and what is to be had. -/
theorem shift_change {new : Tree} (laid : Standing loose arena tables tree) (member : table ∈ tables)
    (change : Change arena after (tree table) new table.slot) (filed : new.Filed loose 0 0) :
    Shift loose arena after tables tables tree (Function.update tree table new) := by
  refine ⟨laid.change member change filed, ?_, ?_⟩
  · intro index
    have balance := change.balance index
    have replaced := sum_claims_update member tree new index
    simp only [tally]
    omega
  · intro index none
    obtain ⟨elsewhere, unclaimed, unavailable⟩ := unheld member none
    exact change.frame index elsewhere unclaimed unavailable

/-- An empty table takes a slot that is to be had. -/
theorem shift_extend (laid : Standing loose arena tables tree) {offset : Nat} {next : Arena}
    (taken : Arena.Taken arena 1 offset next) :
    Shift loose arena (next.write offset Slot.empty) tables (insert ⟨offset⟩ tables) tree
      (Function.update tree ⟨offset⟩ Tree.bare) := by
  obtain ⟨fresh, inside, wide⟩ := laid.extend taken
  refine ⟨wide, ?_, ?_⟩
  · intro index
    have supply := taken.available index
    simp only [tally]
    rw [sum_claims_insert fresh, Arena.available_write]
    dsimp only
    omega
  · intro index none
    have supply := taken.available index
    have unavailable : arena.available index = 0 := by
      simp only [tally] at none
      omega
    have elsewhere : index ≠ offset := by
      rintro rfl
      rw [covers_self] at supply
      omega
    rw [Arena.slot_write inside, if_neg elsewhere, taken.content]

variable (forest : Forest)

/-- Storing a value, whatever comes of it, moves slots between a table and what is to be had.  Where
it succeeds it leaves no more nodes than are needed. -/
theorem exists_shift_put (laid : Standing loose forest.arena tables tree) (member : table ∈ tables)
    (key : Int32) (value : Nat) :
    ∃ grown, Shift loose forest.arena (forest.put table key value).2.arena tables tables tree grown ∧
      ((forest.put table key value).1 = .ok () → Thriving tables tree → Thriving tables grown) := by
  by_cases wide : maxValue < value
  · rw [put_of_gt wide]
    refine ⟨tree, .refl laid, ?_⟩
    rintro ⟨⟩
  · have storing := laid.storing_put forest member key (Nat.le_of_not_lt wide)
    generalize forest.put table key value = outcome at storing ⊢
    obtain ⟨answer, after⟩ := outcome
    dsimp only at storing ⊢
    cases storing with
    | stored _ new change filed _ _ _ sparing =>
        exact ⟨_, laid.shift_change member change filed,
          fun _ thriving => thriving.change fun _ => sparing⟩
    | full _ new change filed =>
        refine ⟨_, laid.shift_change member change filed, ?_⟩
        rintro ⟨⟩
    | tooDeep =>
        refine ⟨tree, .refl laid, ?_⟩
        rintro ⟨⟩

/-- Erasing a key moves slots between a table and what is to be had. -/
theorem exists_shift_erase (laid : Standing loose forest.arena tables tree) (member : table ∈ tables)
    (key : Int32) :
    ∃ grown, Shift loose forest.arena (forest.erase table key).2.arena tables tables tree grown := by
  rcases laid.locate forest member key with ⟨nowhere, _⟩ | found
  · rw [erase_of_nowhere nowhere]
    exact ⟨tree, .refl laid⟩
  · obtain ⟨place, labels, run, children, value, nested, path, located, found, _⟩ := found
    rw [erase_of_located located]
    obtain ⟨_, change, filed, _⟩ := laid.change_erase member found
    exact ⟨_, laid.shift_change member change filed⟩

/-- Creating a table below a key moves a slot from what is to be had to the new table, and leaves the
nodes of the others as they are. -/
theorem exists_shift_createNested (laid : Standing loose forest.arena tables tree)
    (rooted : root ∈ tables) (member : table ∈ tables) (key : Int32)
    (linked : ∀ nested, forest.nested? table key = some nested → nested ∈ tables) :
    ∃ wider grown, Shift loose forest.arena (forest.createNested? table key).2.arena tables wider
        tree grown ∧
      wider = (match (forest.createNested? table key).1 with
        | none => tables
        | some fresh => insert fresh tables) ∧
      (Thriving tables tree → Thriving wider grown) := by
  obtain ⟨answer, after, created, nests⟩ := exists_nests forest table key
  rw [created]
  cases nests with
  | lacking => exact ⟨tables, tree, .refl laid, rfl, id⟩
  | @known forest _ _ nested located here =>
      have has : forest.nested? table key = some ⟨nested⟩ := by
        rw [nested?_eq, under?_of_located located here]
        rfl
      exact ⟨tables, tree, .refl laid, (Finset.insert_eq_of_mem (linked _ has)).symm, id⟩
  | refused _ _ allocation =>
      obtain ⟨rfl, _⟩ := Arena.alloc_none allocation
      exact ⟨tables, tree, .refl laid, rfl, id⟩
  | @founded _ _ _ _ offset _ located here allocation =>
      have taken := Arena.alloc_taken (by decide) allocation
      obtain ⟨top, inside, wide, _, _, _, _, found⟩ := laid.beside rooted member taken located here
      have memberWide : table ∈ insert (⟨offset⟩ : Table) tables := Finset.mem_insert_of_mem member
      obtain ⟨new, change, filed, _, sparing⟩ := wide.nest memberWide found top inside
      exact ⟨_, _, (laid.shift_extend taken).trans (wide.shift_change memberWide change filed), rfl,
        fun thriving => (thriving.extend (laid.extend taken).1).change fun _ => sparing⟩

end Standing

/-! ### Requests -/

namespace Session

variable {loose : Prop} {session : Session} {tree : Table → Tree}

/-- Whatever is asked, slots only move between the tables that were handed out and what is to be
had. -/
theorem exists_shift_step (sound : Coherent loose session.forest session.handles.toFinset)
    (laid : Standing loose session.forest.arena session.handles.toFinset tree) (request : Request) :
    ∃ grown, Shift loose session.forest.arena (session.step request).2.forest.arena
      session.handles.toFinset (session.step request).2.handles.toFinset tree grown := by
  have member := table_mem sound.rooted
  cases request with
  | put table key value =>
      exact (laid.exists_shift_put session.forest (member table) key value).imp fun _ => And.left
  | get => exact ⟨tree, .refl laid⟩
  | contains => exact ⟨tree, .refl laid⟩
  | erase table key => exact laid.exists_shift_erase session.forest (member table) key
  | nested table key =>
      rw [step_nested_eq sound]
      exact ⟨tree, .refl laid⟩
  | createNested table key =>
      obtain ⟨wider, grown, shift, whole, _⟩ := laid.exists_shift_createNested session.forest
        sound.rooted (member table) key fun nested => sound.nested_mem (member table)
      subst whole
      rw [step_createNested_eq, forest_hand, toFinset_hand]
      exact ⟨grown, shift⟩

/-- A session reflects an atlas after any requests, also after those that found no room. -/
theorem Reflects.run {atlas : Atlas} (reflects : Reflects loose session atlas)
    (requests : List Request) : ∃ last, Reflects loose (session.run requests).2 last := by
  induction requests generalizing session atlas with
  | nil => exact ⟨atlas, reflects⟩
  | cons request requests ih =>
      obtain ⟨next, _, reflects⟩ := reflects.step request
      exact ih reflects

theorem exists_shift_run {atlas : Atlas} (reflects : Reflects loose session atlas)
    (laid : Standing loose session.forest.arena session.handles.toFinset tree)
    (requests : List Request) :
    ∃ grown, Shift loose session.forest.arena (session.run requests).2.forest.arena
      session.handles.toFinset (session.run requests).2.handles.toFinset tree grown := by
  induction requests generalizing session atlas tree with
  | nil => exact ⟨tree, .refl laid⟩
  | cons request requests ih =>
      obtain ⟨middle, first⟩ := exists_shift_step reflects.sound laid request
      obtain ⟨next, _, reflects⟩ := reflects.step request
      obtain ⟨grown, rest⟩ := ih reflects first.standing
      exact ⟨grown, first.trans rest⟩

end Session

end Forest

/-! ### Runs side by side -/

/-- Neighbouring slots: the first of them, and how many they are. -/
structure Extent where
  first : Nat
  length : Nat
deriving DecidableEq, Repr

namespace Extent

/-- Whether a slot is one of them. -/
def Covers (extent : Extent) (index : Nat) : Prop :=
  extent.first ≤ index ∧ index < extent.first + extent.length

/-- Whether two extents share no slot. -/
def Apart (one other : Extent) : Prop := ∀ index, ¬ (one.Covers index ∧ other.Covers index)

/-- Extents tile the first slots when no two of them share a slot, and together they cover just those
slots. -/
structure Tile (extents : List Extent) (size : Nat) : Prop where
  apart : extents.Pairwise Apart
  whole : ∀ index, index < size ↔ ∃ extent ∈ extents, extent.Covers index

/-- How often some extents cover a slot. -/
def count (extents : List Extent) (index : Nat) : Nat :=
  (extents.map fun extent => covers extent.first extent.length index).sum

variable {extents : List Extent}

theorem covers_eq (extent : Extent) (index : Nat) [Decidable (extent.Covers index)] :
    covers extent.first extent.length index = if extent.Covers index then 1 else 0 := by
  unfold covers
  split <;> split <;> first | rfl | contradiction

theorem count_append (one other : List Extent) (index : Nat) :
    count (one ++ other) index = count one index + count other index := by
  rw [count, List.map_append, List.sum_append, count, count]

theorem count_flatMap {α : Type} (items : List α) (extents : α → List Extent) (index : Nat) :
    count (items.flatMap extents) index = (items.map fun item => count (extents item) index).sum := by
  induction items with
  | nil => rfl
  | cons item items ih => rw [List.flatMap_cons, count_append, ih, List.map_cons, List.sum_cons]

open Classical in
theorem count_pos_iff (index : Nat) :
    0 < count extents index ↔ ∃ extent ∈ extents, extent.Covers index := by
  simp only [count, List.sum_pos_iff_exists_pos_nat, List.mem_map, covers_eq]
  constructor
  · rintro ⟨_, ⟨extent, among, rfl⟩, some⟩
    refine ⟨extent, among, ?_⟩
    by_contra outside
    simp [outside] at some
  · rintro ⟨extent, among, inside⟩
    exact ⟨1, ⟨extent, among, if_pos inside⟩, Nat.one_pos⟩

/-- Extents that cover no slot twice lie apart. -/
theorem pairwise_apart_of_count (sole : ∀ index, count extents index ≤ 1) :
    extents.Pairwise Apart := by
  induction extents with
  | nil => exact .nil
  | cons extent extents ih =>
      have split : ∀ index, count (extent :: extents) index =
          covers extent.first extent.length index + count extents index := by
        intro index
        rw [count, List.map_cons, List.sum_cons, count]
      refine .cons ?_ (ih fun index => ?_)
      · rintro other among index ⟨here, there⟩
        have first : covers extent.first extent.length index = 1 := covers_of_mem here.1 here.2
        have further := (count_pos_iff index).mpr ⟨other, among, there⟩
        have once := sole index
        rw [split] at once
        omega
      · have once := sole index
        rw [split] at once
        omega

/-- Extents tile the slots that they cover once, if they cover no others. -/
theorem tile_of_count {size : Nat}
    (counted : ∀ index, count extents index = if index < size then 1 else 0) :
    Tile extents size := by
  refine ⟨pairwise_apart_of_count fun index => ?_, fun index => ?_⟩
  · rw [counted]
    split <;> omega
  · rw [← count_pos_iff, counted]
    split <;> simp_all

end Extent

namespace Forest

/-! ### The runs of an arena -/

/-- The runs of the children of all nodes at and below a slot, each as long as the node has labels.
`remaining` counts the levels of nodes that are left. -/
def runsFrom (arena : Arena) : (remaining index : Nat) → List Extent
  | remaining, index =>
      match arena.slot index with
      | .entry .. => []
      | .node labels run _ =>
          match remaining with
          | 0 => []
          | remaining + 1 =>
              { first := run, length := labels.size } ::
                (List.range labels.size).flatMap fun place => runsFrom arena remaining (run + place)

/-- The slot of a table and the runs of all its nodes. -/
def tableExtents (arena : Arena) (table : Table) : List Extent :=
  { first := table.slot, length := 1 } :: runsFrom arena levels table.slot

/-- The free runs, each as long as those among which it is parked. -/
def freeExtents (arena : Arena) : List Extent :=
  (List.range 33).flatMap fun length =>
    (arena.freeRuns length).map fun run => { first := run, length := length }

/-- The slots of all tables that were handed out, the runs of all their nodes, and the free runs. -/
def Session.extents (session : Session) : List Extent :=
  session.handles.flatMap (tableExtents session.forest.arena) ++ freeExtents session.forest.arena

theorem count_freeExtents (arena : Arena) (index : Nat) :
    Extent.count (freeExtents arena) index = arena.parked index := by
  have lengths : Finset.range 33 = (List.range 33).toFinset := by
    ext length
    simp
  rw [freeExtents, Extent.count_flatMap, Arena.parked, lengths,
    List.sum_toFinset _ List.nodup_range]
  simp only [Extent.count, List.map_map, Function.comp_def]

/-- The runs that are found from the slot of a tree are those that the tree claims. -/
theorem count_runsFrom {arena : Arena} {tree : Tree} {remaining level path index : Nat}
    (total : remaining + level = levels) (held : tree.Holds arena.slot index)
    (filed : tree.Filed False level path) (present : tree.present = true) (other : Nat) :
    Extent.count (runsFrom arena remaining index) other = tree.claims other := by
  induction tree generalizing remaining level path index with
  | absent => cases present
  | entry key value nested =>
      rw [runsFrom, show arena.slot index = .entry key value nested from held]
      rfl
  | node labels run children ih =>
      have ⟨⟨spare, here⟩, known, below⟩ := held
      have shallow : level < levels := filed.1.resolve_right fun deep => deep.1
      obtain ⟨left, rfl⟩ : ∃ left, remaining = left + 1 := ⟨remaining - 1, by omega⟩
      -- The runs below a child are those that the child claims; other children claim none.
      have inside : ∀ label ∈ labels.toList,
          Extent.count (runsFrom arena left (run + labels.rank label.val)) other =
            (children label).claims other := fun label among =>
        ih label (by omega) (below label) (filed.2 label)
          ((known label).symm.trans (LabelSet.mem_toList.mp among))
      have further : (labels.toList.map fun label =>
          Extent.count (runsFrom arena left (run + labels.rank label.val)) other).sum =
            ∑ label, (children label).claims other := by
        rw [List.map_congr_left inside, LabelSet.sum_toList]
        apply Finset.sum_congr rfl
        intro label _
        split
        next => rfl
        next missing =>
          rw [held.absent (Bool.eq_false_iff.mpr missing), Tree.claims]
      rw [runsFrom, here]
      dsimp only
      rw [Extent.count, List.map_cons, List.sum_cons, ← Extent.count, Extent.count_flatMap,
        ← labels.map_rank_toList, List.map_map, Tree.claims, ← further]
      rfl

/-- Where tables stand, a slot has as many holders as there are extents that cover it, if slots beyond
the end count as held. -/
theorem Session.count_extents {session : Session} {tree : Table → Tree}
    (laid : Standing False session.forest.arena session.handles.toFinset tree)
    (distinct : session.handles.Nodup) (index : Nat) :
    Extent.count session.extents index + (if index < session.forest.slotCount then 0 else 1) =
      tally session.forest.arena session.handles.toFinset tree index := by
  have tables : ∀ table ∈ session.handles,
      Extent.count (tableExtents session.forest.arena table) index =
        covers table.slot 1 index + (tree table).claims index := by
    intro table among
    have member := List.mem_toFinset.mpr among
    have present : (tree table).present = true := by
      obtain ⟨_, _, _, shape⟩ := laid.exists_node member
      rw [shape]
      rfl
    have below := count_runsFrom (show levels + 0 = levels from rfl) (laid.held table member)
      (laid.filed table member) present index
    rw [tableExtents, Extent.count, List.map_cons, List.sum_cons, ← Extent.count, below]
  rw [Session.extents, Extent.count_append, Extent.count_flatMap, List.map_congr_left tables,
    count_freeExtents, tally, Arena.available, List.sum_toFinset _ distinct, slotCount]
  omega

/-! ### Every run of requests -/

theorem Session.tally_start {tree : Table → Tree}
    (laid : Standing False start.forest.arena start.handles.toFinset tree) (index : Nat) :
    tally start.forest.arena start.handles.toFinset tree index = 1 := by
  have bare : start.extents = [{ first := 0, length := 1 }, { first := 0, length := 0 }] := by
    decide
  rw [← count_extents laid (List.nodup_singleton _), bare]
  have size : start.forest.slotCount = 1 := rfl
  simp only [Extent.count, List.map_cons, List.map_nil, List.sum_cons, List.sum_nil, covers, size]
  split <;> split <;> split <;> omega

/-- After any requests to a new forest, served or not, the slots of all tables that were ever handed
out, the root first, the runs of their nodes and the free runs tile the arena: no slot is owned twice,
and none is lost. -/
theorem Session.tile_run (requests : List Request) :
    (start.run requests).2.handles.head? = some root ∧
      Extent.Tile (start.run requests).2.extents (start.run requests).2.forest.slotCount := by
  obtain ⟨tree, laid⟩ := mirrors_start.sound.laid
  obtain ⟨last, reflects⟩ := mirrors_start.toReflects.run requests
  obtain ⟨grown, shift⟩ := exists_shift_run mirrors_start.toReflects laid requests
  refine ⟨reflects.top, Extent.tile_of_count fun index => ?_⟩
  have counted := count_extents shift.standing reflects.distinct index
  rw [shift.tally, tally_start laid] at counted
  split at counted <;> split <;> omega

end Forest

end Lexicon

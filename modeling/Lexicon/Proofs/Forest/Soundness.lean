/-
Module: Lexicon.Proofs.Forest.Soundness
Layer: Proofs
Purpose: When a forest is sound, what it then has under the keys of its tables, and what each
  operation does to that.
Imports: Lexicon.Proofs.Forest.Shrinking
Trusted boundary: none
Main exports: Forest.under?, Forest.Coherent, Forest.Sound, Forest.coherent_new, Forest.sound_new,
  Forest.put_ends, Forest.put_spec, Forest.erase_spec, Forest.createNested_spec
-/
import Lexicon.Proofs.Forest.Shrinking

namespace Lexicon

/-!
A forest is sound when all tables that were ever created stand in it as trees and none of them shares
a slot with another one or with what is free.  What a sound forest has under a key is all that its
operations depend on: each of them is described by the one place at which it changes that.

A forest that came from outside may have nodes below the last level.  Its tables still stand apart
from each other, but a value cannot be stored where a key leads to such a node.  Coherent forests are
those with such nodes, or, where they are excluded, the sound ones.
-/

namespace Forest

/-- A tree names nested tables by their slots. -/
def named (content : Nat × Option Nat) : Nat × Option Table :=
  (content.1, content.2.map Table.mk)

/-- What a forest has under a key of a table: the value and the nested table. -/
def under? (forest : Forest) (table : Table) (key : Int32) : Option (Nat × Option Table) :=
  match forest.locate table key with
  | none => none
  | some place =>
      match forest.arena.slot place.slot with
      | .entry _ value nested => some (named (value, nested))
      | .node .. => none

theorem get?_eq (forest : Forest) (table : Table) (key : Int32) :
    forest.get? table key = (forest.under? table key).map (·.1) := by
  unfold get? under?
  cases forest.locate table key with
  | none => rfl
  | some place =>
      dsimp only
      cases forest.arena.slot place.slot with
      | node => rfl
      | entry => rfl

theorem nested?_eq (forest : Forest) (table : Table) (key : Int32) :
    forest.nested? table key = (forest.under? table key).bind (·.2) := by
  unfold nested? under?
  cases forest.locate table key with
  | none => rfl
  | some place =>
      dsimp only
      cases forest.arena.slot place.slot with
      | node => rfl
      | entry => rfl

theorem under?_of_nowhere {forest : Forest} {table : Table} {key : Int32}
    (nowhere : forest.locate table key = none) : forest.under? table key = none := by
  rw [under?, nowhere]

theorem under?_of_located {forest : Forest} {table : Table} {key : Int32} {place : Place} {value : Nat}
    {nested : Option Nat} (located : forest.locate table key = some place)
    (here : forest.arena.slot place.slot = .entry key value nested) :
    forest.under? table key = some (named (value, nested)) := by
  simp only [under?, located, here]

/-- A key is in a table when there is something under it, since the search only ends at entries. -/
theorem contains_eq (forest : Forest) (table : Table) (key : Int32) :
    forest.contains table key = (forest.under? table key).isSome := by
  unfold contains
  cases located : forest.locate table key with
  | none => rw [under?_of_nowhere located]; rfl
  | some place =>
      obtain ⟨value, nested, here⟩ := (finds_of_locateFrom _ located).exists_entry
      rw [under?_of_located located here]
      rfl

/-! ### Tables that stand in an arena -/

/-- When one of several trees is another one, what they claim together changes by what it claims. -/
theorem sum_claims_update {tables : Finset Table} {table : Table} (member : table ∈ tables)
    (tree : Table → Tree) (new : Tree) (index : Nat) :
    ∑ other ∈ tables,
          (covers other.slot 1 index + (Function.update tree table new other).claims index) +
        (covers table.slot 1 index + (tree table).claims index) =
      ∑ other ∈ tables, (covers other.slot 1 index + (tree other).claims index) +
        (covers table.slot 1 index + new.claims index) := by
  have replaced := sum_add_eq_of_differ member
    (fun other : Table =>
      covers other.slot 1 index + (Function.update tree table new other).claims index)
    (fun other : Table => covers other.slot 1 index + (tree other).claims index)
    (by
      intro other _ differ
      simp only [Function.update_of_ne differ])
  simpa only [Function.update_self] using replaced

/-- An empty table beside others claims what it stands at, and nothing else. -/
theorem sum_claims_insert {tables : Finset Table} {table : Table} (fresh : table ∉ tables)
    (tree : Table → Tree) (index : Nat) :
    ∑ other ∈ insert table tables,
        (covers other.slot 1 index + (Function.update tree table Tree.bare other).claims index) =
      covers table.slot 1 index +
        ∑ other ∈ tables, (covers other.slot 1 index + (tree other).claims index) := by
  rw [Finset.sum_insert fresh, Function.update_self, Tree.claims_bare, Nat.add_zero]
  congr 1
  refine Finset.sum_congr rfl fun other among => ?_
  rw [Function.update_of_ne (ne_of_mem_of_not_mem among fresh)]

/-- Every table stands in the arena as its tree, and no slot is held twice.  Where `loose` allows it,
there may be nodes without children below the last level. -/
structure Standing (loose : Prop) (arena : Arena) (tables : Finset Table) (tree : Table → Tree) :
    Prop where
  node : ∀ table ∈ tables, (tree table).isNode = true
  held : ∀ table ∈ tables, (tree table).Holds arena.slot table.slot
  filed : ∀ table ∈ tables, (tree table).Filed loose 0 0
  sole : ∀ index, ∑ table ∈ tables, (covers table.slot 1 index + (tree table).claims index) +
    arena.available index ≤ 1
  sane : arena.Sane

/-- Tables that stand in an arena without nodes below the last level. -/
abbrev Laid (arena : Arena) (tables : Finset Table) (tree : Table → Tree) : Prop :=
  Standing False arena tables tree

namespace Standing

variable {loose : Prop} {arena after : Arena} {tables : Finset Table} {tree : Table → Tree}
  {table : Table}

theorem stands (laid : Standing loose arena tables tree) (member : table ∈ tables) :
    (tree table).Stands loose arena 0 0 table.slot := by
  refine ⟨laid.held table member, laid.filed table member, ?_⟩
  intro index
  have sole := laid.sole index
  have least := Finset.single_le_sum
    (f := fun table : Table => covers table.slot 1 index + (tree table).claims index)
    (fun _ _ => Nat.zero_le _) member
  omega

/-- A table stands as a node. -/
theorem exists_node (laid : Standing loose arena tables tree) (member : table ∈ tables) :
    ∃ labels run children, tree table = .node labels run children :=
  Tree.exists_node_of_isNode (laid.node table member)

theorem exists_stands (laid : Standing loose arena tables tree) (member : table ∈ tables) :
    ∃ labels run children, tree table = .node labels run children ∧
      (Tree.node labels run children).Stands loose arena 0 0 table.slot := by
  obtain ⟨labels, run, children, shape⟩ := laid.exists_node member
  exact ⟨labels, run, children, shape, shape ▸ laid.stands member⟩

/-- What one table holds no other one does. -/
theorem apart (laid : Standing loose arena tables tree) (member : table ∈ tables) {other : Table}
    (among : other ∈ tables) (differ : other ≠ table) (index : Nat) :
    covers other.slot 1 index + (tree other).claims index +
      (covers table.slot 1 index + (tree table).claims index) + arena.available index ≤ 1 := by
  have sole := laid.sole index
  have least := Finset.add_le_sum
    (f := fun table : Table => covers table.slot 1 index + (tree table).claims index)
    (fun _ _ => Nat.zero_le _) among member differ
  omega

/-- A table stands as before while the slots that it takes stay as they are. -/
theorem held_congr (laid : Standing loose arena tables tree) (member : table ∈ tables)
    (same : ∀ index, 0 < covers table.slot 1 index + (tree table).claims index →
      after.slot index = arena.slot index) :
    (tree table).Holds after.slot table.slot := by
  refine (laid.held table member).congr (same _ (by rw [covers_self]; omega)) ?_
  intro index claimed
  exact same index (by omega)

/-- When one table changes, the others stand as before. -/
theorem change {new : Tree} (laid : Standing loose arena tables tree) (member : table ∈ tables)
    (change : Change arena after (tree table) new table.slot) (filed : new.Filed loose 0 0) :
    Standing loose after tables (Function.update tree table new) := by
  refine ⟨?_, ?_, ?_, ?_, change.sane laid.sane⟩
  · intro other among
    by_cases same : other = table
    · rw [same, Function.update_self]
      exact change.rooted (laid.node table member)
    · rw [Function.update_of_ne same]
      exact laid.node other among
  · intro other among
    by_cases same : other = table
    · rw [same, Function.update_self]
      exact change.held
    · -- What the other table takes is no part of what changes, for no slot is taken twice.
      rw [Function.update_of_ne same]
      refine laid.held_congr among fun index holds => ?_
      have sole := laid.apart member among same index
      refine change.frame index ?_ (by omega) (by omega)
      rintro rfl
      rw [covers_self table.slot] at sole
      omega
  · intro other among
    by_cases same : other = table
    · rw [same, Function.update_self]
      exact filed
    · rw [Function.update_of_ne same]
      exact laid.filed other among
  · intro index
    have sole := laid.sole index
    have balance := change.balance index
    have replaced := sum_claims_update member tree new index
    omega

/-- An empty table is laid where a slot is to be had. -/
theorem extend (laid : Standing loose arena tables tree) {offset : Nat} {next : Arena}
    (taken : Arena.Taken arena 1 offset next) :
    ⟨offset⟩ ∉ tables ∧ offset < next.slots.size ∧
      Standing loose (next.write offset Slot.empty) (insert ⟨offset⟩ tables)
        (Function.update tree ⟨offset⟩ Tree.bare) := by
  have supply := taken.available offset
  rw [covers_self] at supply
  have inside : offset < next.slots.size := by
    have sole := laid.sole offset
    exact Arena.lt_size_of_available (by omega)
  have fresh : (⟨offset⟩ : Table) ∉ tables := by
    intro member
    have apart := (laid.stands member).apart offset
    rw [covers_self] at apart
    omega
  have others : ∀ table ∈ tables, Function.update tree ⟨offset⟩ Tree.bare table = tree table :=
    fun table among => Function.update_of_ne (ne_of_mem_of_not_mem among fresh) _ _
  refine ⟨fresh, inside, (Finset.forall_mem_insert _ _ _).mpr ⟨?_, fun table among => ?_⟩,
    (Finset.forall_mem_insert _ _ _).mpr ⟨?_, fun table among => ?_⟩,
    (Finset.forall_mem_insert _ _ _).mpr ⟨?_, fun table among => ?_⟩, fun index => ?_,
    (laid.sane.taken taken).write inside ⟨by decide, by decide⟩⟩
  · rw [Function.update_self]
    rfl
  · rw [others table among]
    exact laid.node table among
  · rw [Function.update_self]
    exact Tree.holds_bare (by rw [Arena.slot_write inside, if_pos rfl])
  · rw [others table among]
    refine laid.held_congr among fun index holds => ?_
    have apart := (laid.stands among).apart index
    rw [Arena.slot_write inside, if_neg, taken.content]
    rintro rfl
    omega
  · rw [Function.update_self]
    exact Tree.filed_bare loose (by decide) 0
  · rw [others table among]
    exact laid.filed table among
  · have sole := laid.sole index
    have here := taken.available index
    rw [sum_claims_insert fresh, Arena.available_write]
    dsimp only
    omega

/-- Following the labels of a key finds what its table has under it. -/
theorem locate (forest : Forest) (laid : Standing loose forest.arena tables tree)
    (member : table ∈ tables) (key : Int32) :
    (forest.locate table key = none ∧ (tree table).lookup key 0 = none) ∨
      ∃ place labels run children value nested path,
        forest.locate table key = some place ∧
        Found key (tree table) 0 0 table.slot place labels run children value nested path ∧
        forest.arena.slot place.slot = .entry key value nested := by
  obtain ⟨labels, run, children, shape, whole⟩ := laid.exists_stands member
  rw [shape]
  rcases locateFrom_spec rfl whole.held whole.filed with nowhere | found
  · exact Or.inl nowhere
  · right
    obtain ⟨place, labelsBelow, runBelow, childrenBelow, value, nested, path, located, found⟩ :=
      found
    refine ⟨place, labelsBelow, runBelow, childrenBelow, value, nested, path, located, found, ?_⟩
    obtain ⟨_, _, below⟩ := (found.leads.stands whole).held
    have here := below (Label.ofKey key place.level)
    rw [found.entry] at here
    rw [found.slot]
    exact here

/-- A place where a key was located is that of an entry of the table's tree. -/
theorem exists_found {forest : Forest} (laid : Standing loose forest.arena tables tree)
    (member : table ∈ tables) {key : Int32} {place : Place} {value : Nat} {nested : Option Nat}
    (located : forest.locate table key = some place)
    (here : forest.arena.slot place.slot = .entry key value nested) :
    ∃ labels run children path,
      Found key (tree table) 0 0 table.slot place labels run children value nested path := by
  rcases laid.locate forest member key with ⟨nowhere, _⟩ | found
  · cases located.symm.trans nowhere
  · obtain ⟨other, labels, run, children, value, nested, path, same, found, there⟩ := found
    cases located.symm.trans same
    cases here.symm.trans there
    exact ⟨labels, run, children, path, found⟩

theorem under?_eq (forest : Forest) (laid : Standing loose forest.arena tables tree)
    (member : table ∈ tables) (key : Int32) :
    forest.under? table key = ((tree table).lookup key 0).map named := by
  unfold under?
  rcases laid.locate forest member key with ⟨nowhere, silent⟩ | found
  · rw [nowhere, silent]
    rfl
  · obtain ⟨place, _, _, _, value, nested, _, located, found, here⟩ := found
    rw [located, found.said]
    dsimp only
    rw [here]
    rfl

/-- Taking an entry out of its table leaves a tree without its key. -/
theorem change_erase {key : Int32} {place : Place} {labels : LabelSet} {run value path : Nat}
    {children : Label → Tree} {nested : Option Nat} (laid : Standing loose arena tables tree)
    (member : table ∈ tables)
    (found : Found key (tree table) 0 0 table.slot place labels run children value nested path) :
    ∃ new, Change arena (arena.eraseChild place.parent (Label.ofKey key place.level)) (tree table) new
        table.slot ∧ new.Filed loose 0 0 ∧
      ∀ other, new.lookup other 0 = if other = key then none else (tree table).lookup other 0 := by
  have whole := laid.stands member
  obtain ⟨_, change, filed, lookup⟩ := change_eraseChild (found.leads.stands whole) found.entry
  obtain ⟨new, change, filed, _, _, said⟩ := found.leads.graft whole change filed
  exact ⟨new, change, filed, said none lookup⟩

/-- When an empty table was laid beside the others, an entry is still found where it was. -/
theorem beside {next : Arena} {count offset value : Nat} {nested : Option Nat} {key : Int32}
    {place : Place} (laid : Standing loose arena tables tree) (rooted : root ∈ tables)
    (member : table ∈ tables) (taken : Arena.Taken arena 1 offset next)
    (located : Forest.locate ⟨arena, count⟩ table key = some place)
    (here : arena.slot place.slot = .entry key value nested) :
    offset ≠ 0 ∧ offset < (next.write offset Slot.empty).slots.size ∧
      Standing loose (next.write offset Slot.empty) (insert ⟨offset⟩ tables)
        (Function.update tree ⟨offset⟩ Tree.bare) ∧
      ∃ labels run children path, Found key (Function.update tree ⟨offset⟩ Tree.bare table) 0 0
        table.slot place labels run children value nested path := by
  obtain ⟨fresh, inside, wide⟩ := laid.extend taken
  have laidForest : Standing loose (Forest.mk arena count).arena tables tree := laid
  obtain ⟨labels, run, children, path, found⟩ := laidForest.exists_found member located here
  rw [← Function.update_of_ne (ne_of_mem_of_not_mem member fresh) Tree.bare tree] at found
  refine ⟨?_, by rw [Arena.size_write]; exact inside, wide, labels, run, children, path, found⟩
  rintro rfl
  exact fresh rooted

/-- Storing a value below the topmost node of a table does what it should. -/
theorem storing_put (forest : Forest) (laid : Standing loose forest.arena tables tree)
    (member : table ∈ tables) (key : Int32) {value : Nat} (fits : value ≤ maxValue) :
    Storing loose forest (tree table) key value 0 0 table.slot 32 (forest.put table key value).1
      (forest.put table key value).2 := by
  obtain ⟨labels, run, children, shape, whole⟩ := laid.exists_stands member
  rw [shape]
  exact (stores_put forest table key fits).storing fits rfl whole (Nat.mod_one _) (.any _)

/-- A change of one table is seen at one key of it. -/
theorem edit (before after : Forest) {new : Tree} {key : Int32}
    {answer : Option (Nat × Option Nat)} (laid : Standing loose before.arena tables tree)
    (member : table ∈ tables) (change : Change before.arena after.arena (tree table) new table.slot)
    (filed : new.Filed loose 0 0)
    (lookup : ∀ other, new.lookup other 0 =
      if other = key then answer else (tree table).lookup other 0) :
    Standing loose after.arena tables (Function.update tree table new) ∧
      ∀ other ∈ tables, ∀ name, after.under? other name =
        if other = table ∧ name = key then answer.map named else before.under? other name := by
  have laidAfter := laid.change member change filed
  refine ⟨laidAfter, ?_⟩
  intro other among name
  rw [laidAfter.under?_eq after among, laid.under?_eq before among]
  by_cases same : other = table
  · subst same
    rw [Function.update_self, lookup]
    by_cases equal : name = key
    · rw [if_pos equal, if_pos ⟨rfl, equal⟩]
    · rw [if_neg equal, if_neg fun both => equal both.2]
  · rw [Function.update_of_ne same, if_neg fun both => same both.1]

end Standing

/-! ### Coherent and sound forests -/

/-- The tables that were created in a forest stand in it, and every table but the root is nested
below at most one key.  A table that nothing leads to any more is still one of them. -/
structure Coherent (loose : Prop) (forest : Forest) (tables : Finset Table) : Prop where
  laid : ∃ tree, Standing loose forest.arena tables tree
  rooted : root ∈ tables
  linked : ∀ {table : Table}, table ∈ tables → ∀ {key : Int32} {value : Nat} {nested : Table},
    forest.under? table key = some (value, some nested) → nested ∈ tables ∧ nested ≠ root
  owned : ∀ {first second : Table}, first ∈ tables → second ∈ tables →
    ∀ {key other : Int32} {value further : Nat} {nested : Table},
      forest.under? first key = some (value, some nested) →
      forest.under? second other = some (further, some nested) → first = second ∧ key = other

/-- A forest whose tables are coherent, without nodes below the last level. -/
abbrev Sound (forest : Forest) (tables : Finset Table) : Prop := Coherent False forest tables

/-- A forest in which one key of one table has something new under it, and nothing else. -/
structure Amended (loose : Prop) (before after : Forest) (tables : Finset Table) (table : Table)
    (key : Int32) (answer : Option (Nat × Option Table)) : Prop where
  sound : Coherent loose after tables
  entry : ∀ other ∈ tables, ∀ name, after.under? other name =
    if other = table ∧ name = key then answer else before.under? other name

/-- A forest that is sound after such a change. -/
abbrev Edited (before after : Forest) (tables : Finset Table) (table : Table) (key : Int32)
    (answer : Option (Nat × Option Table)) : Prop :=
  Amended False before after tables table key answer

namespace Coherent

variable {loose : Prop} {forest : Forest} {tables : Finset Table} {table : Table}

/-- A forest is sound again after a change at one key, if the table that is then nested below the key
was so before or is nested nowhere else. -/
theorem edited {after : Forest} {key : Int32} {answer : Option (Nat × Option Table)}
    (sound : Coherent loose forest tables) (laid : ∃ tree, Standing loose after.arena tables tree)
    (member : table ∈ tables)
    (entry : ∀ other ∈ tables, ∀ name, after.under? other name =
      if other = table ∧ name = key then answer else forest.under? other name)
    (reference : ∀ value nested, answer = some (value, some nested) →
      (∃ old, forest.under? table key = some (old, some nested)) ∨
        nested ∈ tables ∧ nested ≠ root ∧ ∀ other ∈ tables, ∀ name value,
          forest.under? other name ≠ some (value, some nested)) :
    Amended loose forest after tables table key answer := by
  refine ⟨⟨laid, sound.rooted, ?_, ?_⟩, entry⟩
  · intro other among name value nested has
    rw [entry other among] at has
    split at has
    next =>
      rcases reference value nested has with ⟨old, before⟩ | ⟨known, top, _⟩
      · exact sound.linked member before
      · exact ⟨known, top⟩
    next => exact sound.linked among has
  · intro first second inFirst inSecond name other value further nested hasFirst hasSecond
    rw [entry first inFirst] at hasFirst
    rw [entry second inSecond] at hasSecond
    split at hasFirst
    next here =>
      split at hasSecond
      next there => exact ⟨here.1.trans there.1.symm, here.2.trans there.2.symm⟩
      next =>
        -- Two keys lead to one table: either the changed key did so before, or nothing did.
        rcases reference value nested hasFirst with ⟨old, before⟩ | ⟨_, _, nowhere⟩
        · have same := sound.owned member inSecond before hasSecond
          exact ⟨here.1.trans same.1, here.2.trans same.2⟩
        · exact absurd hasSecond (nowhere second inSecond other further)
    next =>
      split at hasSecond
      next there =>
        rcases reference further nested hasSecond with ⟨old, before⟩ | ⟨_, _, nowhere⟩
        · have same := sound.owned inFirst member hasFirst before
          exact ⟨same.1.trans there.1.symm, same.2.trans there.2.symm⟩
        · exact absurd hasFirst (nowhere first inFirst name value)
      next => exact sound.owned inFirst inSecond hasFirst hasSecond

/-- Another value under a key leaves the table that is nested below it. -/
theorem revalued {after : Forest} {key : Int32} {value : Nat} (sound : Coherent loose forest tables)
    (laid : ∃ tree, Standing loose after.arena tables tree) (member : table ∈ tables)
    (entry : ∀ other ∈ tables, ∀ name, after.under? other name =
      if other = table ∧ name = key then some (value, (forest.under? table key).bind (·.2))
      else forest.under? other name) :
    Amended loose forest after tables table key
      (some (value, (forest.under? table key).bind (·.2))) := by
  refine sound.edited laid member entry ?_
  intro stored nested same
  left
  cases before : forest.under? table key with
  | none =>
      rw [before] at same
      cases same
  | some content =>
      obtain ⟨old, further⟩ := content
      rw [before] at same
      cases same
      exact ⟨old, rfl⟩

/-- A table that is nested below a key of a table is one of the tables. -/
theorem nested_mem (sound : Coherent loose forest tables) (member : table ∈ tables) {key : Int32}
    {nested : Table} (has : forest.nested? table key = some nested) : nested ∈ tables := by
  rw [nested?_eq] at has
  obtain ⟨⟨value, below⟩, here, rfl⟩ := Option.bind_eq_some_iff.mp has
  exact (sound.linked member here).1

end Coherent

/-- The forest of one empty table has nothing under any key. -/
theorem under?_new (key : Int32) : new.under? root key = none := by
  have nowhere : new.locate root key = none := by
    simp [locate, levels, locateFrom, new, root, Arena.new, Arena.ofSlots, Arena.slot, Slot.empty,
      Slot.labels]
  rw [under?, nowhere]

theorem coherent_new (loose : Prop) : Coherent loose new {root} := by
  refine ⟨⟨fun _ => Tree.bare, ?_, ?_, ?_, ?_, ?_⟩, Finset.mem_singleton_self root, ?_, ?_⟩
  · intro table _
    rfl
  · intro table member
    rw [Finset.mem_singleton.mp member]
    exact Tree.holds_bare rfl
  · intro table _
    exact Tree.filed_bare loose (by decide) 0
  · intro index
    have parked : new.arena.parked index = 0 := Arena.parked_ofSlots _ index
    have size : new.arena.slots.size = 1 := rfl
    simp only [Finset.sum_singleton, Tree.bare, Tree.claims, LabelSet.size_empty, covers_zero,
      Finset.sum_const_zero, Arena.available, parked, size, root]
    simp only [covers]
    split <;> split <;> omega
  · refine ⟨by decide, ?_⟩
    intro index
    have empty : new.arena.slot index = Slot.empty := by
      cases index with
      | zero => rfl
      | succ index => rfl
    rw [empty]
    exact ⟨by decide, by decide⟩
  · intro table member key value nested has
    rw [Finset.mem_singleton.mp member, under?_new] at has
    cases has
  · intro first second inFirst _ key other value further nested has _
    rw [Finset.mem_singleton.mp inFirst, under?_new] at has
    cases has

/-- The forest of one empty table is sound, and has nothing under any key. -/
theorem sound_new : Sound new {root} ∧ ∀ key, new.under? root key = none :=
  ⟨coherent_new False, under?_new⟩

/-! ### What the operations do -/

section Operations

variable {loose : Prop} {forest : Forest} {tables : Finset Table} {table : Table}

/-- Storing a value that fits succeeds, unless there is no room; it keeps the nested table of a key
that is there, and adds a key that is not.  Without room nothing changes that is said about any key.
Where there may be nodes below the last level, storing may also end at one of them; then nothing
changes at all. -/
theorem put_ends (sound : Coherent loose forest tables) (member : table ∈ tables) (key : Int32)
    {value : Nat} (fits : value ≤ maxValue) :
    ∃ answer after, forest.put table key value = (answer, after) ∧
      after.slotCount ≤ forest.slotCount + 32 ∧
      (answer = .ok () ∧
          Amended loose forest after tables table key
            (some (value, (forest.under? table key).bind (·.2))) ∧
          after.count = forest.count + (if (forest.under? table key).isSome then 0 else 1) ∨
        answer = .error .forestFull ∧ maxSlots < forest.slotCount + 32 ∧
          Amended loose forest after tables table key (forest.under? table key) ∧
          after.count = forest.count ∨
        loose ∧ answer = .error (.format (.keyTooDeep key)) ∧ after = forest) := by
  obtain ⟨tree, laid⟩ := sound.laid
  have has := laid.under?_eq forest member key
  have storing := laid.storing_put forest member key fits
  generalize forest.put table key value = outcome at storing ⊢
  obtain ⟨answer, after⟩ := outcome
  refine ⟨answer, after, rfl, ?_⟩
  dsimp only at storing
  cases storing with
  | stored _ new change filed lookup count growth _ =>
      refine ⟨growth, Or.inl ⟨rfl, ?_, ?_⟩⟩
      · obtain ⟨laidAfter, entry⟩ := laid.edit forest after member change filed lookup
        have answer : Option.map named (some (value, ((tree table).lookup key 0).bind (·.2))) =
            some (value, (forest.under? table key).bind (·.2)) := by
          rw [has]
          cases (tree table).lookup key 0 with
          | none => rfl
          | some content => rfl
        rw [answer] at entry
        exact sound.revalued ⟨_, laidAfter⟩ member entry
      · rw [count, has, Option.isSome_map]
  | full _ new change filed lookup count growth short =>
      refine ⟨growth, Or.inr (Or.inl ⟨rfl, short, ?_, count⟩)⟩
      have kept : ∀ other, new.lookup other 0 =
          if other = key then (tree table).lookup key 0 else (tree table).lookup other 0 := by
        intro other
        rw [lookup]
        split
        next same => rw [same]
        next => rfl
      obtain ⟨laidAfter, entry⟩ := laid.edit forest after member change filed kept
      rw [← has] at entry
      exact sound.edited ⟨_, laidAfter⟩ member entry fun stored nested same => Or.inl ⟨stored, same⟩
  | tooDeep allowed => exact ⟨Nat.le_add_right _ _, Or.inr (Or.inr ⟨allowed, rfl, rfl⟩)⟩

/-- Without nodes below the last level, storing a value succeeds or finds no room. -/
theorem put_spec (sound : Sound forest tables) (member : table ∈ tables) (key : Int32) {value : Nat}
    (fits : value ≤ maxValue) :
    ∃ answer after, forest.put table key value = (answer, after) ∧
      after.slotCount ≤ forest.slotCount + 32 ∧
      (answer = .ok () ∧
          Edited forest after tables table key
            (some (value, (forest.under? table key).bind (·.2))) ∧
          after.count = forest.count + (if (forest.under? table key).isSome then 0 else 1) ∨
        answer = .error .forestFull ∧ maxSlots < forest.slotCount + 32 ∧
          Edited forest after tables table key (forest.under? table key) ∧
          after.count = forest.count) := by
  obtain ⟨answer, after, outcome, growth, ends⟩ := put_ends sound member key fits
  exact ⟨answer, after, outcome, growth, ends.imp_right fun rest => rest.resolve_right (·.1)⟩

/-- Erasing tells whether the key was there, and then it is not. -/
theorem erase_spec (sound : Coherent loose forest tables) (member : table ∈ tables) (key : Int32) :
    ∃ after, forest.erase table key = ((forest.under? table key).isSome, after) ∧
      Amended loose forest after tables table key none ∧ after.slotCount = forest.slotCount ∧
      after.count = forest.count - (if (forest.under? table key).isSome then 1 else 0) := by
  obtain ⟨tree, laid⟩ := sound.laid
  have has := laid.under?_eq forest member key
  rcases laid.locate forest member key with ⟨nowhere, silent⟩ | found
  · rw [silent] at has
    rw [erase_of_nowhere nowhere, has]
    refine ⟨_, rfl, ?_, rfl, rfl⟩
    refine sound.edited ⟨tree, laid⟩ member ?_ (by rintro _ _ ⟨⟩)
    intro other _ name
    split
    next here => rw [here.1, here.2, has]; rfl
    next => rfl
  · obtain ⟨place, labels, run, children, value, nested, path, located, found, _⟩ := found
    rw [found.said] at has
    rw [erase_of_located located, has]
    refine ⟨_, rfl, ?_, ?_, rfl⟩
    · obtain ⟨new, change, filed, lookup⟩ := laid.change_erase member found
      have edit := laid.edit forest ⟨_, forest.count - 1⟩ member change filed lookup
      exact sound.edited ⟨_, edit.1⟩ member edit.2 (by rintro _ _ ⟨⟩)
    · simp only [slotCount, Arena.eraseChild]
      split <;> simp [Arena.release]

/-- The forest is sound after the first steps of creating a table: an empty one is there, and nothing
leads to it. -/
theorem Coherent.extend (sound : Coherent loose forest tables) {offset : Nat} {next : Arena}
    (taken : Arena.Taken forest.arena 1 offset next) :
    ⟨offset⟩ ∉ tables ∧
      Coherent loose ⟨next.write offset Slot.empty, forest.count⟩ (insert ⟨offset⟩ tables) ∧
      (∀ other ∈ tables, ∀ name,
        under? ⟨next.write offset Slot.empty, forest.count⟩ other name = forest.under? other name) ∧
      ∀ name, under? ⟨next.write offset Slot.empty, forest.count⟩ ⟨offset⟩ name = none := by
  obtain ⟨tree, laid⟩ := sound.laid
  obtain ⟨fresh, _, wide⟩ := laid.extend taken
  have old : ∀ other ∈ tables, ∀ name,
      under? ⟨next.write offset Slot.empty, forest.count⟩ other name =
        forest.under? other name := by
    intro other among name
    have differ : other ≠ ⟨offset⟩ := by
      rintro rfl
      exact fresh among
    rw [wide.under?_eq ⟨next.write offset Slot.empty, forest.count⟩
        (Finset.mem_insert_of_mem among), laid.under?_eq forest among,
      Function.update_of_ne differ]
  have new : ∀ name, under? ⟨next.write offset Slot.empty, forest.count⟩ ⟨offset⟩ name = none := by
    intro name
    rw [wide.under?_eq ⟨next.write offset Slot.empty, forest.count⟩
        (Finset.mem_insert_self _ _), Function.update_self]
    rfl
  refine ⟨fresh, ⟨⟨_, wide⟩, Finset.mem_insert_of_mem sound.rooted, ?_, ?_⟩, old, new⟩
  · intro table member key value nested has
    rcases Finset.mem_insert.mp member with rfl | among
    · rw [new] at has
      cases has
    · rw [old table among] at has
      have link := sound.linked among has
      exact ⟨Finset.mem_insert_of_mem link.1, link.2⟩
  · intro first second inFirst inSecond key other value further nested hasFirst hasSecond
    rcases Finset.mem_insert.mp inFirst with rfl | amongFirst
    · rw [new] at hasFirst
      cases hasFirst
    · rcases Finset.mem_insert.mp inSecond with rfl | amongSecond
      · rw [new] at hasSecond
        cases hasSecond
      · rw [old first amongFirst] at hasFirst
        rw [old second amongSecond] at hasSecond
        exact sound.owned amongFirst amongSecond hasFirst hasSecond

/-- A new table below a key is none of the tables before it, and it is empty. -/
structure Founded (loose : Prop) (before after : Forest) (tables : Finset Table) (table : Table)
    (key : Int32) (value : Nat) (fresh : Table) : Prop where
  unknown : fresh ∉ tables
  sound : Coherent loose after (insert fresh tables)
  entry : ∀ other ∈ tables, ∀ name, after.under? other name =
    if other = table ∧ name = key then some (value, some fresh) else before.under? other name
  empty : ∀ name, after.under? fresh name = none
  bare : (after.arena.slot fresh.slot).labels = LabelSet.empty
  growth : after.slotCount ≤ before.slotCount + 1
  count : after.count = before.count

/-- A forest that is sound with its new table. -/
abbrev Nested (before after : Forest) (tables : Finset Table) (table : Table) (key : Int32)
    (value : Nat) (fresh : Table) : Prop :=
  Founded False before after tables table key value fresh

/-- An entry gets a table nested below it. -/
theorem change_nest {arena : Arena} {index offset value : Nat} {key : Int32}
    (held : (Tree.entry key value none).Holds arena.slot index)
    (apart : (Tree.entry key value none).Apart arena index) (top : offset ≠ 0)
    (inside : offset < arena.slots.size) :
    Change arena (arena.write index (.entry key value (some offset))) (.entry key value none)
      (.entry key value (some offset)) index := by
  refine change_write apart ?_
  intro sane
  have stored := sane.storable index
  have bounded := sane.bounded
  have limit : maxSlots < Slot.entryMark := by decide
  rw [show arena.slot index = .entry key value none from held] at stored
  refine ⟨stored.1, ?_⟩
  rintro _ ⟨⟩
  exact ⟨by omega, by omega⟩

/-- An entry that has no nested table gets one, and nothing else of its table changes. -/
theorem Standing.nest {arena : Arena} {tree : Table → Tree} {key : Int32} {place : Place}
    {labels : LabelSet} {run value path offset : Nat} {children : Label → Tree}
    (laid : Standing loose arena tables tree) (member : table ∈ tables)
    (found : Found key (tree table) 0 0 table.slot place labels run children value none path)
    (top : offset ≠ 0) (inside : offset < arena.slots.size) :
    ∃ new, Change arena (arena.write place.slot (.entry key value (some offset))) (tree table) new
        table.slot ∧ new.Filed loose 0 0 ∧
      (∀ other, new.lookup other 0 =
        if other = key then some (value, some offset) else (tree table).lookup other 0) ∧
      (tree table).Sparing new 0 := by
  have leads := found.leads.child found.member
  rw [found.entry, ← found.slot] at leads
  have whole := laid.stands member
  have below := leads.stands whole
  obtain ⟨new, change, filed, _, sparing, said⟩ := leads.graft whole
    (change_nest below.held below.apart top inside) below.filed
  exact ⟨new, change, filed,
    said _ fun other => Tree.lookup_entry_nested key value none _ other _,
    sparing (.entry _ _ _ _ _ _)⟩

/-- A new empty table may be nested below an entry that has none. -/
theorem founded_of_taken {arena next : Arena} {count offset value : Nat} {key : Int32} {place : Place}
    (sound : Coherent loose ⟨arena, count⟩ tables) (member : table ∈ tables)
    (located : locate ⟨arena, count⟩ table key = some place)
    (here : arena.slot place.slot = .entry key value none)
    (taken : Arena.Taken arena 1 offset next) :
    Founded loose ⟨arena, count⟩
      ⟨(next.write offset Slot.empty).write place.slot (.entry key value (some offset)), count⟩
      tables table key value ⟨offset⟩ := by
  obtain ⟨fresh, soundWide, old, nothing⟩ := sound.extend taken
  obtain ⟨tree, laid⟩ := sound.laid
  obtain ⟨top, inside, wide, _, _, _, _, found⟩ := laid.beside sound.rooted member taken located here
  have memberWide : table ∈ insert (⟨offset⟩ : Table) tables := Finset.mem_insert_of_mem member
  have differ : table ≠ ⟨offset⟩ := ne_of_mem_of_not_mem member fresh
  obtain ⟨new, change, filed, lookup, _⟩ := wide.nest memberWide found top inside
  obtain ⟨laidAfter, entry⟩ := wide.edit ⟨next.write offset Slot.empty, count⟩
    ⟨(next.write offset Slot.empty).write place.slot (.entry key value (some offset)), count⟩
    memberWide change filed lookup
  have edited := soundWide.edited ⟨_, laidAfter⟩ memberWide entry (by
    rintro _ nested ⟨⟩
    right
    refine ⟨Finset.mem_insert_self _ _, fun same => top (Table.mk.inj same), ?_⟩
    intro other among name further has
    rcases Finset.mem_insert.mp among with rfl | known
    · rw [nothing] at has
      cases has
    · rw [old other known] at has
      exact fresh (sound.linked known has).1)
  refine ⟨fresh, edited.sound, ?_, ?_, ?_, ?_, rfl⟩
  · intro other among name
    rw [edited.entry other (Finset.mem_insert_of_mem among), old other among]
    rfl
  · intro name
    rw [edited.entry _ (Finset.mem_insert_self _ _), if_neg, nothing]
    rintro ⟨same, _⟩
    exact differ same.symm
  · have held := laidAfter.held ⟨offset⟩ (Finset.mem_insert_self _ _)
    rw [Function.update_of_ne (Ne.symm differ), Function.update_self] at held
    obtain ⟨spare, here⟩ := held.1
    rw [here]
    rfl
  · simpa [slotCount] using taken.growth

/-- The table nested below a key is the one that is there, or a new one. -/
theorem createNested_spec (sound : Coherent loose forest tables) (member : table ∈ tables)
    (key : Int32) :
    match forest.under? table key with
    | none => forest.createNested? table key = (none, forest)
    | some (_, some nested) => forest.createNested? table key = (some nested, forest)
    | some (value, none) =>
        (forest.createNested? table key = (none, forest) ∧ maxSlots < forest.slotCount + 1) ∨
          ∃ fresh after, forest.createNested? table key = (some fresh, after) ∧
            Founded loose forest after tables table key value fresh := by
  obtain ⟨answer, after, created, nests⟩ := exists_nests forest table key
  rw [created]
  cases nests with
  | lacking nowhere =>
      rw [under?_of_nowhere nowhere]
  | known located here =>
      rw [under?_of_located located here]
      rfl
  | refused located here allocation =>
      obtain ⟨rfl, short⟩ := Arena.alloc_none allocation
      rw [under?_of_located located here]
      exact Or.inl ⟨rfl, short⟩
  | founded located here allocation =>
      rw [under?_of_located located here]
      exact Or.inr ⟨_, _, rfl, founded_of_taken sound member located here
        (Arena.alloc_taken (by decide) allocation)⟩

end Operations

end Forest

end Lexicon

/-
Module: Lexicon.Proofs.Forest.Tree
Layer: Proofs
Purpose: The tree of nodes and entries that a table is, apart from where it lies; which slots it
  claims, what it says about a key, and when an arena holds it.
Imports: Lexicon.Proofs.Forest.Allocation, Lexicon.Proofs.Forest.Descent,
  Lexicon.Proofs.Forest.Label, Mathlib.Algebra.Order.BigOperators.Group.Finset,
  Mathlib.Data.Fintype.Basic
Trusted boundary: none
Main exports: Tree, Tree.claims, Tree.lookup, Tree.Filed, Tree.Holds, Tree.Apart, Tree.Stands, Change,
  Change.trans, Change.child
-/
import Lexicon.Proofs.Forest.Allocation
import Lexicon.Proofs.Forest.Descent
import Lexicon.Proofs.Forest.Label
import Mathlib.Algebra.Order.BigOperators.Group.Finset
import Mathlib.Data.Fintype.Basic

namespace Lexicon

/-!
All tables share one arena, so what an operation does to one of them has to be told apart from what
it does to its neighbours.  A table is read as a tree that knows where its runs lie.  The slots that a
tree claims are those of its runs; the slot at which the tree itself stands is claimed by whoever
leads to it.
-/

/-- Whether the parts of a slot fit its stored form. -/
def Slot.Storable : Slot → Prop
  | .node _ run spare =>
      run < LittleEndian.span 4 ∧ spare < Slot.entryMark * LittleEndian.span 4
  | .entry _ value nested =>
      value ≤ Forest.maxValue ∧ ∀ table, nested = some table → 0 < table ∧ table < Slot.entryMark

/-- What stands at a slot, with everything below it. -/
inductive Tree where
  /-- Nothing: there is no child under this label. -/
  | absent
  | entry (key : Int32) (value : Nat) (nested : Option Nat)
  | node (labels : LabelSet) (run : Nat) (children : Label → Tree)

namespace Tree

/-- The tree of an empty table. -/
def bare : Tree := .node LabelSet.empty 0 fun _ => .absent

/-- Whether there is anything. -/
def present : Tree → Bool
  | .absent => false
  | .entry .. => true
  | .node .. => true

/-- Whether it is a node. -/
def isNode : Tree → Bool
  | .absent => false
  | .entry .. => false
  | .node .. => true

/-- How often the runs of a tree cover a slot. -/
def claims : Tree → Nat → Nat
  | .absent, _ => 0
  | .entry .., _ => 0
  | .node labels run children, index =>
      covers run labels.size index + ∑ label, (children label).claims index

/-- What a tree says about a key: its value and its nested table.  The labels of the key are followed
from the given level on. -/
def lookup (key : Int32) : Tree → (level : Nat) → Option (Nat × Option Nat)
  | .absent, _ => none
  | .entry resident value nested, _ => if resident = key then some (value, nested) else none
  | .node _ _ children, level => (children (Label.ofKey key level)).lookup key (level + 1)

/-- A tree is filed at a level and below a path when each of its entries stands under the labels of
its key.  Nodes stand above the last level, or, where `loose` allows it, have no children. -/
def Filed (loose : Prop) : Tree → (level path : Nat) → Prop
  | .absent, _, _ => True
  | .entry key _ _, level, path => key.toUInt32.toNat % Label.weight level = path
  | .node labels _ children, level, path =>
      (level < levels ∨ loose ∧ labels.size = 0) ∧
        ∀ label, (children label).Filed loose (level + 1) (path + label.val * Label.weight level)

/-- A tree stands at a slot of an arena, and its runs hold what it says. -/
def Holds (slot : Nat → Slot) : Tree → (index : Nat) → Prop
  | .absent, _ => True
  | .entry key value nested, index => slot index = .entry key value nested
  | .node labels run children, index =>
      (∃ spare, slot index = .node labels run spare) ∧
        (∀ label, labels.contains label = (children label).present) ∧
        ∀ label, (children label).Holds slot (run + labels.rank label.val)

/-- No slot is held twice among the place of a tree, its runs, and what an arena has to give. -/
def Apart (tree : Tree) (arena : Arena) (index : Nat) : Prop :=
  ∀ other, covers index 1 other + tree.claims other + arena.available other ≤ 1

/-! ### The tree of an empty table -/

@[simp] theorem claims_bare (index : Nat) : bare.claims index = 0 := by simp [bare, claims]

theorem filed_bare (loose : Prop) {level : Nat} (shallow : level < levels) (path : Nat) :
    bare.Filed loose level path :=
  ⟨.inl shallow, fun _ => trivial⟩

theorem holds_bare {slot : Nat → Slot} {index : Nat} (here : slot index = Slot.empty) :
    bare.Holds slot index :=
  ⟨⟨0, here⟩, fun label => by simp [present], fun _ => trivial⟩

/-! ### What a tree is -/

theorem exists_node_of_isNode {tree : Tree} (isNode : tree.isNode = true) :
    ∃ labels run children, tree = node labels run children := by
  cases tree with
  | absent => cases isNode
  | entry => cases isNode
  | node labels run children => exact ⟨labels, run, children, rfl⟩

theorem eq_absent_of_present {tree : Tree} (none : tree.present = false) : tree = absent := by
  cases tree with
  | absent => rfl
  | entry => cases none
  | node => cases none

/-! ### Claims of a node and of its children -/

theorem claims_child_le (children : Label → Tree) (label : Label) (index : Nat) :
    (children label).claims index ≤ ∑ other, (children other).claims index :=
  Finset.single_le_sum (f := fun other => (children other).claims index)
    (fun _ _ => Nat.zero_le _) (Finset.mem_univ label)

/-- Two children together claim no more than all of them. -/
theorem claims_children_le (children : Label → Tree) {first second : Label}
    (differ : first ≠ second) (index : Nat) :
    (children first).claims index + (children second).claims index ≤
      ∑ other, (children other).claims index := by
  rw [← Finset.add_sum_erase Finset.univ (fun other => (children other).claims index)
    (Finset.mem_univ first)]
  apply Nat.add_le_add_left
  exact Finset.single_le_sum (f := fun other => (children other).claims index)
    (fun _ _ => Nat.zero_le _) (Finset.mem_erase.mpr ⟨differ.symm, Finset.mem_univ second⟩)

/-- The place of a child is covered by the run. -/
theorem covers_place (run : Nat) {labels : LabelSet} {label : Label}
    (member : labels.contains label = true) (index : Nat) :
    covers (run + labels.rank label.val) 1 index ≤ covers run labels.size index := by
  have inside := LabelSet.rank_lt_size member
  unfold covers
  split <;> split <;> omega

/-- Another child changes the claims of a node by its own. -/
theorem claims_update (labels : LabelSet) (run : Nat) (children : Label → Tree) (label : Label)
    (new : Tree) (index : Nat) :
    (node labels run (Function.update children label new)).claims index +
        (children label).claims index =
      (node labels run children).claims index + new.claims index := by
  have change := sum_add_eq_of_differ (Finset.mem_univ label)
    (fun other => (Function.update children label new other).claims index)
    (fun other => (children other).claims index)
    (by
      intro other _ differ
      simp only [Function.update_of_ne differ])
  simp only [Function.update_self] at change
  simp only [claims]
  omega

/-! ### Trees under one node -/

theorem lookup_update {labels : LabelSet} {run : Nat} {children : Label → Tree} {label : Label}
    {new : Tree} (key : Int32) (level : Nat) :
    (node labels run (Function.update children label new)).lookup key level =
      if Label.ofKey key level = label then new.lookup key (level + 1)
      else (node labels run children).lookup key level := by
  simp only [lookup]
  by_cases same : Label.ofKey key level = label
  · rw [same, Function.update_self, if_pos rfl]
  · rw [Function.update_of_ne same, if_neg same]

/-- A child that says something new about a key alone makes its parent say so. -/
theorem lookup_update_of_lookup {labels : LabelSet} {run : Nat} {children : Label → Tree}
    {new : Tree} {key : Int32} {level : Nat} {answer : Option (Nat × Option Nat)}
    (lookup : ∀ other, new.lookup other (level + 1) =
      if other = key then answer
      else (children (Label.ofKey key level)).lookup other (level + 1)) (other : Int32) :
    (node labels run (Function.update children (Label.ofKey key level) new)).lookup other level =
      if other = key then answer else (node labels run children).lookup other level := by
  rw [lookup_update]
  by_cases same : Label.ofKey other level = Label.ofKey key level
  · rw [if_pos same, lookup, Tree.lookup, same]
  · have differ : other ≠ key := fun equal => same (equal ▸ rfl)
    rw [if_neg same, if_neg differ]

theorem Filed.update {loose : Prop} {labels : LabelSet} {run : Nat} {children : Label → Tree}
    {label : Label} {new : Tree} {level path : Nat}
    (filed : (node labels run children).Filed loose level path)
    (filedNew : new.Filed loose (level + 1) (path + label.val * Label.weight level)) :
    (node labels run (Function.update children label new)).Filed loose level path := by
  obtain ⟨depth, below⟩ := filed
  refine ⟨depth, ?_⟩
  intro other
  by_cases same : other = label
  · subst same
    rw [Function.update_self]
    exact filedNew
  · rw [Function.update_of_ne same]
    exact below other

theorem Filed.mono {strict loose : Prop} (weaker : strict → loose) {tree : Tree}
    {level path : Nat} (filed : tree.Filed strict level path) : tree.Filed loose level path := by
  induction tree generalizing level path with
  | absent => trivial
  | entry => exact filed
  | node labels run children ih =>
      obtain ⟨depth, below⟩ := filed
      exact ⟨depth.imp_right (And.imp_left weaker), fun label => ih label (below label)⟩

/-- A node with a child stands above the last level. -/
theorem Filed.shallow {loose : Prop} {labels : LabelSet} {run : Nat} {children : Label → Tree}
    {label : Label} {level path : Nat} (filed : (node labels run children).Filed loose level path)
    (member : labels.contains label = true) : level < levels := by
  rcases filed.1 with shallow | ⟨_, empty⟩
  · exact shallow
  · have placed := LabelSet.rank_lt_size member
    omega

/-! ### Holding -/

section Holding

variable {labels : LabelSet} {run : Nat} {children : Label → Tree} {label : Label} {index : Nat}

/-- An arena holds one tree at a slot. -/
theorem Holds.unique {slot : Nat → Slot} {first second : Tree} {index : Nat}
    (held : first.Holds slot index) (heldSecond : second.Holds slot index)
    (present : first.present = second.present) : first = second := by
  induction first generalizing second index with
  | absent => exact (eq_absent_of_present present.symm).symm
  | entry key value nested =>
      cases second with
      | absent => cases present
      | entry =>
          have same := (show slot index = _ from held).symm.trans heldSecond
          cases same
          rfl
      | node =>
          obtain ⟨spare, here⟩ := heldSecond.1
          have same := (show slot index = _ from held).symm.trans here
          cases same
  | node labels run children ih =>
      obtain ⟨⟨spare, here⟩, known, below⟩ := held
      cases second with
      | absent => cases present
      | entry =>
          have same := here.symm.trans heldSecond
          cases same
      | node =>
          obtain ⟨⟨_, hereSecond⟩, knownSecond, belowSecond⟩ := heldSecond
          have same := here.symm.trans hereSecond
          cases same
          congr 1
          funext label
          exact ih label (below label) (belowSecond label)
            ((known label).symm.trans (knownSecond label))

/-- A tree is held at every place of every arena that agrees on its slots. -/
theorem Holds.congr {before after : Nat → Slot} {tree : Tree} {old new : Nat}
    (held : tree.Holds before old) (moved : after new = before old)
    (kept : ∀ index, 0 < tree.claims index → after index = before index) :
    tree.Holds after new := by
  induction tree generalizing old new with
  | absent => trivial
  | entry => exact moved.trans held
  | node labels run children ih =>
      obtain ⟨⟨spare, here⟩, known, below⟩ := held
      refine ⟨⟨spare, moved.trans here⟩, known, ?_⟩
      intro label
      cases present : (children label).present with
      | false =>
          rw [eq_absent_of_present present]
          trivial
      | true =>
          have member : labels.contains label = true := (known label).trans present
          have inside := LabelSet.rank_lt_size member
          refine ih label (below label) (kept _ ?_) ?_
          · have covered : covers run labels.size (run + labels.rank label.val) = 1 :=
              covers_of_mem (by omega) (by omega)
            simp only [claims, covered]
            omega
          · intro other claimed
            have least := claims_child_le children label other
            exact kept other (by simp only [claims]; omega)

theorem Holds.parts {slot : Nat → Slot} (held : (node labels run children).Holds slot index) :
    (slot index).labels = labels ∧ (slot index).run = run := by
  obtain ⟨⟨spare, here⟩, _, _⟩ := held
  rw [here]
  exact ⟨rfl, rfl⟩

theorem Holds.isEntry_eq_false {slot : Nat → Slot}
    (held : (node labels run children).Holds slot index) : (slot index).isEntry = false := by
  obtain ⟨⟨spare, here⟩, _, _⟩ := held
  rw [here]
  rfl

theorem Holds.child {slot : Nat → Slot} (held : (node labels run children).Holds slot index)
    (label : Label) : (slot index).child label = run + labels.rank label.val := by
  rw [Slot.child, held.parts.1, held.parts.2]

/-- Under a label that a node lacks there is nothing. -/
theorem Holds.absent {slot : Nat → Slot} {label : Label}
    (held : (node labels run children).Holds slot index)
    (missing : labels.contains label = false) : children label = absent :=
  eq_absent_of_present ((held.2.1 label).symm.trans missing)

/-- Below the last level a node has nothing under any key. -/
theorem Holds.lookup_of_deep {slot : Nat → Slot} {loose : Prop} {level path : Nat}
    (held : (node labels run children).Holds slot index)
    (filed : (node labels run children).Filed loose level path) (deep : levels ≤ level)
    (key : Int32) : (node labels run children).lookup key level = none := by
  rcases filed.1 with shallow | ⟨_, empty⟩
  · exact absurd shallow (Nat.not_lt.mpr deep)
  · rw [lookup, held.absent (LabelSet.size_eq_zero empty _), lookup]

/-- Where the slot of a child has an entry, so has the tree. -/
theorem Holds.child_eq_entry {slot : Nat → Slot} {key : Int32} {value : Nat} {nested : Option Nat}
    (held : (node labels run children).Holds slot index) (member : labels.contains label = true)
    (here : slot (run + labels.rank label.val) = .entry key value nested) :
    children label = .entry key value nested :=
  (held.2.2 label).unique here ((held.2.1 label).symm.trans member)

/-- Where the slot of a child has a node, so has the tree. -/
theorem Holds.child_eq_node {slot : Nat → Slot} (held : (node labels run children).Holds slot index)
    (member : labels.contains label = true)
    (inner : (slot (run + labels.rank label.val)).isEntry = false) :
    ∃ labelsBelow runBelow childrenBelow,
      children label = node labelsBelow runBelow childrenBelow := by
  have present := (held.2.1 label).symm.trans member
  have below := held.2.2 label
  cases shape : children label with
  | absent =>
      rw [shape] at present
      cases present
  | entry =>
      rw [shape] at below
      rw [show slot _ = _ from below] at inner
      cases inner
  | node labelsBelow runBelow childrenBelow => exact ⟨_, _, _, rfl⟩

/-- Going down from a node comes to the place of a child. -/
theorem Holds.descends {arena : Arena} {key : Int32} {level child : Nat}
    (held : (node labels run children).Holds arena.slot index)
    (step : arena.Descends key level index child) :
    labels.contains (Label.ofKey key level) = true ∧
      child = run + labels.rank (Label.ofKey key level).val :=
  ⟨held.parts.1 ▸ step.member, step.child.symm.trans (held.child _)⟩

theorem Holds.descend {arena : Arena} {key : Int32} {level : Nat}
    (held : (node labels run children).Holds arena.slot index)
    (member : labels.contains (Label.ofKey key level) = true) :
    arena.Descends key level index (run + labels.rank (Label.ofKey key level).val) :=
  ⟨held.parts.1.symm ▸ member, held.child _⟩

/-- A child is held elsewhere if its place reads as before and the slots that it claims are kept. -/
theorem Holds.child_congr {before after : Nat → Slot} {place : Nat}
    (held : (node labels run children).Holds before index)
    (moved : labels.contains label = true → after place = before (run + labels.rank label.val))
    (kept : ∀ slot, 0 < (children label).claims slot → after slot = before slot) :
    (children label).Holds after place := by
  cases present : (children label).present with
  | false =>
      rw [eq_absent_of_present present]
      trivial
  | true => exact (held.2.2 label).congr (moved ((held.2.1 label).trans present)) kept

end Holding

/-! ### What is kept apart -/

section Apart

variable {arena : Arena} {index slot run : Nat} {labels : LabelSet} {children : Label → Tree}
  {label : Label}

/-- The place of a tree that is apart is claimed by nobody below it, and is not available. -/
theorem Apart.unavailable {tree : Tree} (apart : tree.Apart arena index) :
    tree.claims index = 0 ∧ arena.available index = 0 := by
  have sole := apart index
  rw [covers_self] at sole
  omega

theorem Apart.lt_size {tree : Tree} (apart : tree.Apart arena index) : index < arena.slots.size :=
  Arena.lt_size_of_available apart.unavailable.2

/-- A child is apart where its parent is. -/
theorem Apart.child (apart : (node labels run children).Apart arena index)
    (member : labels.contains label = true) :
    (children label).Apart arena (run + labels.rank label.val) := by
  intro other
  have whole := apart other
  have place := covers_place run member other
  have least := claims_child_le children label other
  simp only [claims] at whole
  omega

/-- The slot of a node, its run and what is to be had share no slot. -/
theorem Apart.sole (apart : (node labels run children).Apart arena index) (slot : Nat) :
    covers index 1 slot + covers run labels.size slot + arena.available slot ≤ 1 := by
  have whole := apart slot
  simp only [claims] at whole
  omega

/-- What holds of a slot of a node's run: it lies inside the arena, is not that of the node, and is
neither claimed further down nor to be had. -/
structure InRun (arena : Arena) (index : Nat) (children : Label → Tree) (slot : Nat) : Prop where
  inside : slot < arena.slots.size
  other : slot ≠ index
  unclaimed : ∀ label, (children label).claims slot = 0
  unavailable : arena.available slot = 0

theorem Apart.inRun (apart : (node labels run children).Apart arena index) (low : run ≤ slot)
    (high : slot < run + labels.size) : InRun arena index children slot := by
  have sole := apart slot
  simp only [claims] at sole
  rw [covers_of_mem low high] at sole
  refine ⟨Arena.lt_size_of_available (by omega), ?_, fun label => ?_, by omega⟩
  · rintro rfl
    rw [covers_self] at sole
    omega
  · have least := claims_child_le children label slot
    omega

/-- The place of a child is in the run. -/
theorem Apart.place (apart : (node labels run children).Apart arena index)
    (member : labels.contains label = true) :
    InRun arena index children (run + labels.rank label.val) := by
  have inside := LabelSet.rank_lt_size member
  exact apart.inRun (by omega) (by omega)

/-- What holds of a slot that one child of a node claims: it is not that of the node, is claimed by no
other child, and is not to be had. -/
structure InChild (arena : Arena) (index : Nat) (children : Label → Tree) (label : Label)
    (slot : Nat) : Prop where
  other : slot ≠ index
  unclaimed : ∀ sibling, sibling ≠ label → (children sibling).claims slot = 0
  unavailable : arena.available slot = 0

theorem Apart.inChild (apart : (node labels run children).Apart arena index)
    (claimed : 0 < (children label).claims slot) : InChild arena index children label slot := by
  have sole := apart slot
  have least := claims_child_le children label slot
  simp only [claims] at sole
  refine ⟨?_, fun sibling differ => ?_, by omega⟩
  · rintro rfl
    rw [covers_self] at sole
    omega
  · have both := claims_children_le children differ slot
    omega

end Apart

/-! ### Standing -/

/-- A tree stands at its slot, below its path, and apart from all else. -/
structure Stands (loose : Prop) (arena : Arena) (tree : Tree) (level path index : Nat) : Prop where
  held : tree.Holds arena.slot index
  filed : tree.Filed loose level path
  apart : tree.Apart arena index

namespace Stands

variable {loose : Prop} {arena : Arena} {labels : LabelSet} {run : Nat} {children : Label → Tree}
  {label : Label} {level path index : Nat}

/-- A child stands where its parent says. -/
theorem child (whole : (node labels run children).Stands loose arena level path index)
    (member : labels.contains label = true) :
    (children label).Stands loose arena (level + 1) (path + label.val * Label.weight level)
      (run + labels.rank label.val) :=
  ⟨whole.held.2.2 label, whole.filed.2 label, whole.apart.child member⟩

/-- The entry of another key is in the way only above the last level: further down the labels of the
two keys have parted. -/
theorem lt_levels_of_differ {key resident : Int32} {value : Nat} {nested : Option Nat}
    (whole : (node labels run children).Stands loose arena level path index)
    (agrees : key.toUInt32.toNat % Label.weight level = path)
    (member : labels.contains (Label.ofKey key level) = true)
    (shape : children (Label.ofKey key level) = entry resident value nested)
    (differ : resident ≠ key) : level + 1 < levels := by
  have below := (whole.child member).filed
  rw [shape] at below
  refine Label.lt_levels_of_differ (whole.filed.shallow member) differ ?_
  rw [show resident.toUInt32.toNat % _ = _ from below, Label.agrees_succ agrees]

end Stands

end Tree

/-! ### Changes of one tree -/

/-- The slots of an arena fit their stored form, and there are not too many of them. -/
structure Arena.Sane (arena : Arena) : Prop where
  bounded : arena.slots.size ≤ maxSlots
  storable : ∀ index, (arena.slot index).Storable

/-- An entry that has a stored form has one with any other value that fits. -/
theorem Arena.Sane.storable_entry {arena : Arena} (sane : arena.Sane) {index old value : Nat}
    {key : Int32} {nested : Option Nat} (here : arena.slot index = .entry key old nested)
    (fits : value ≤ Forest.maxValue) : (Slot.entry key value nested).Storable := by
  have stored := sane.storable index
  rw [here] at stored
  exact ⟨fits, stored.2⟩

/-- What may happen to an arena when the tree at one slot becomes another: the new tree is held,
slots only move between the tree and what is available, and no other slot is touched. -/
structure Change (before after : Arena) (old new : Tree) (index : Nat) : Prop where
  present : new.present = true
  rooted : old.isNode = true → new.isNode = true
  held : new.Holds after.slot index
  balance : ∀ other,
    new.claims other + after.available other = old.claims other + before.available other
  frame : ∀ other, other ≠ index → old.claims other = 0 → before.available other = 0 →
    after.slot other = before.slot other
  sane : before.Sane → after.Sane

namespace Change

variable {first second third : Arena} {old mid new : Tree} {index : Nat}

theorem apart (change : Change first second old new index) (apart : old.Apart first index) :
    new.Apart second index := by
  intro other
  have balance := change.balance other
  have before := apart other
  omega

/-- Nothing changes. -/
theorem refl (present : old.present = true) (held : old.Holds first.slot index) :
    Change first first old old index :=
  ⟨present, id, held, fun _ => rfl, fun _ _ _ _ => rfl, id⟩

/-- Changes of one tree follow each other. -/
theorem trans (before : Change first second old mid index)
    (after : Change second third mid new index) : Change first third old new index := by
  refine ⟨after.present, fun node => after.rooted (before.rooted node), after.held, ?_, ?_,
    fun sane => after.sane (before.sane sane)⟩
  · intro other
    rw [after.balance, before.balance]
  · intro other differ unclaimed unavailable
    have balance := before.balance other
    rw [after.frame other differ (by omega) (by omega),
      before.frame other differ unclaimed unavailable]

/-- The change of a child is a change of its parent. -/
theorem child {labels : LabelSet} {run : Nat} {children : Label → Tree} {label : Label} {index : Nat}
    (held : (Tree.node labels run children).Holds first.slot index)
    (apart : (Tree.node labels run children).Apart first index)
    (member : labels.contains label = true)
    (change : Change first second (children label) new (run + labels.rank label.val)) :
    Change first second (.node labels run children)
      (.node labels run (Function.update children label new)) index := by
  obtain ⟨spare, here⟩ := held.1
  have place := apart.place member
  refine ⟨rfl, fun _ => rfl, ⟨⟨spare, ?_⟩, fun other => ?_, fun other => ?_⟩, fun other => ?_,
    fun other differ unclaimed unavailable => ?_, change.sane⟩
  · -- the node itself is neither in its own run nor available
    obtain ⟨unclaimed, unavailable⟩ := apart.unavailable
    have least := Tree.claims_child_le children label index
    simp only [Tree.claims] at unclaimed
    rw [change.frame index place.other.symm (by omega) unavailable, here]
  · by_cases same : other = label
    · subst same
      rw [Function.update_self, member, change.present]
    · rw [Function.update_of_ne same, held.2.1]
  · by_cases same : other = label
    · subst same
      rw [Function.update_self]
      exact change.held
    · rw [Function.update_of_ne same]
      refine held.child_congr (fun sibling => ?_) fun slot claimed => ?_
      · have beside := apart.place sibling
        refine change.frame _ (fun equal => same ?_) (beside.unclaimed label) beside.unavailable
        exact LabelSet.rank_inj sibling member (by omega)
      · have beside := apart.inChild claimed
        refine change.frame slot ?_ (beside.unclaimed label (Ne.symm same)) beside.unavailable
        rintro rfl
        exact absurd (place.unclaimed other) (Nat.ne_of_gt claimed)
  · have replaced := Tree.claims_update labels run children label new other
    have balance := change.balance other
    omega
  · have least := Tree.claims_child_le children label other
    simp only [Tree.claims] at unclaimed
    refine change.frame other ?_ (by omega) unavailable
    rintro rfl
    have inside := LabelSet.rank_lt_size member
    rw [covers_of_mem (show run ≤ _ by omega) (by omega)] at unclaimed
    omega

end Change

end Lexicon

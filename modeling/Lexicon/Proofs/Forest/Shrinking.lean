/-
Module: Lexicon.Proofs.Forest.Shrinking
Layer: Proofs
Purpose: Where the labels of a key lead, what changing or erasing its entry does to the tree of the
  table, and that following the labels finds the entry.
Imports: Lexicon.Proofs.Forest.Growth
Trusted boundary: none
Main exports: Tree.Leads, Tree.Leads.graft, change_pruned, change_eraseChild, Forest.locateFrom_spec
-/
import Lexicon.Proofs.Forest.Growth

namespace Lexicon

/-! ### The way to an entry -/

namespace Tree

/-- The labels of a key lead from a tree down to another one below it. -/
inductive Leads (key : Int32) (below : Tree) (levelBelow pathBelow indexBelow : Nat) :
    Tree → (level path index : Nat) → Prop
  | here : Leads key below levelBelow pathBelow indexBelow below levelBelow pathBelow indexBelow
  | down {labels : LabelSet} {run : Nat} {children : Label → Tree} {level path index : Nat}
      (member : labels.contains (Label.ofKey key level) = true)
      (further : Leads key below levelBelow pathBelow indexBelow
        (children (Label.ofKey key level)) (level + 1)
        (path + (Label.ofKey key level).val * Label.weight level)
        (run + labels.rank (Label.ofKey key level).val)) :
      Leads key below levelBelow pathBelow indexBelow (.node labels run children) level path index

namespace Leads

variable {loose : Prop} {arena after : Arena} {key : Int32} {tree below new : Tree}
  {level path index levelBelow pathBelow indexBelow : Nat}

/-- What stands below a tree stands as the tree does. -/
theorem stands (leads : Leads key below levelBelow pathBelow indexBelow tree level path index)
    (whole : tree.Stands loose arena level path index) :
    below.Stands loose arena levelBelow pathBelow indexBelow := by
  induction leads with
  | here => exact whole
  | down member _ ih => exact ih (whole.child member)

/-- The labels lead on to the child of a node. -/
theorem child {labels : LabelSet} {run : Nat} {children : Label → Tree}
    (leads : Leads key (.node labels run children) levelBelow pathBelow indexBelow tree level path
      index) (member : labels.contains (Label.ofKey key levelBelow) = true) :
    Leads key (children (Label.ofKey key levelBelow)) (levelBelow + 1)
      (pathBelow + (Label.ofKey key levelBelow).val * Label.weight levelBelow)
      (run + labels.rank (Label.ofKey key levelBelow).val) tree level path index := by
  induction leads with
  | here => exact .down member .here
  | down inside _ ih => exact .down inside ih

/-- A change below a tree is a change of the tree, and the labels lead to what is there then.  It says
something new about the key alone if it does so below. -/
theorem graft (leads : Leads key below levelBelow pathBelow indexBelow tree level path index)
    (whole : tree.Stands loose arena level path index)
    (change : Change arena after below new indexBelow)
    (filed : new.Filed loose levelBelow pathBelow) :
    ∃ changed, Change arena after tree changed index ∧ changed.Filed loose level path ∧
      Leads key new levelBelow pathBelow indexBelow changed level path index ∧
      (below.Sparing new levelBelow → tree.Sparing changed level) ∧
      ∀ answer, (∀ other, new.lookup other levelBelow =
          if other = key then answer else below.lookup other levelBelow) →
        ∀ other, changed.lookup other level =
          if other = key then answer else tree.lookup other level := by
  induction leads with
  | here => exact ⟨new, change, filed, .here, id, fun _ => id⟩
  | @down labels run children level path index member _ ih =>
      obtain ⟨child, changed, filedChild, leadsChild, sparing, said⟩ := ih (whole.child member)
      refine ⟨_, changed.child whole.held whole.apart member, whole.filed.update filedChild,
        .down member ?_, fun spared => (sparing spared).child,
        fun answer lookup => lookup_update_of_lookup (said answer lookup)⟩
      rw [Function.update_self]
      exact leadsChild

end Leads

end Tree

/-! ### Erasing a child -/

/-- A node with a single label has no other child. -/
theorem Tree.absent_of_single {labels : LabelSet} {children : Label → Tree} {label other : Label}
    (known : ∀ label, labels.contains label = (children label).present) (single : labels.size = 1)
    (member : labels.contains label = true) (differ : other ≠ label) : children other = .absent := by
  apply Tree.eq_absent_of_present
  rw [← known]
  cases again : labels.contains other with
  | false => rfl
  | true => exact absurd (LabelSet.eq_of_single single again member) differ

/-- The only child of a node taken away. -/
theorem change_eraseOnly {arena : Arena} {index run : Nat} {labels : LabelSet}
    {children : Label → Tree} {label : Label} {key : Int32} {value : Nat} {nested : Option Nat}
    (apart : (Tree.node labels run children).Apart arena index)
    (known : ∀ label, labels.contains label = (children label).present)
    (entry : children label = .entry key value nested) (single : labels.size = 1) :
    Change arena ((arena.release run 1).write index Slot.empty) (.node labels run children)
      Tree.bare index := by
  have member : labels.contains label = true := by rw [known, entry]; rfl
  have inside : index < (arena.release run 1).slots.size := apart.lt_size
  have others : ∀ other, other ≠ label → children other = .absent :=
    fun other => Tree.absent_of_single known single member
  have below : ∀ other, ∑ label, (children label).claims other = 0 := by
    intro other
    apply Finset.sum_eq_zero
    intro place _
    by_cases same : place = label
    · rw [same, entry, Tree.claims]
    · rw [others place same, Tree.claims]
  refine ⟨rfl, fun _ => rfl, Tree.holds_bare ?_, ?_, ?_, ?_⟩
  · rw [Arena.slot_write inside, if_pos rfl]
  · intro other
    rw [Arena.available_write, Arena.available_release _ _ (by omega), Tree.claims_bare]
    simp only [Tree.claims, below, single]
    omega
  · intro other elsewhere _ _
    rw [Arena.slot_write inside, if_neg elsewhere, Arena.slot_release]
  · intro sane
    exact (sane.release run 1).write inside ⟨by decide, by decide⟩

namespace Arena

/-- A run in which what stands behind a place has moved up by one, and the last slot is given
back. -/
def closeGap (arena : Arena) (run length place : Nat) : Arena :=
  (arena.copy (run + place + 1) (run + place) (length - 1 - place)).release (run + length - 1) 1

section Gap

variable {arena : Arena} {run length place : Nat}

theorem size_closeGap (arena : Arena) (run length place : Nat) :
    (arena.closeGap run length place).slots.size = arena.slots.size :=
  size_copy ..

theorem slot_closeGap (inside : run + length ≤ arena.slots.size) (placed : place < length)
    (index : Nat) :
    (arena.closeGap run length place).slot index =
      if run + place ≤ index ∧ index < run + length - 1 then arena.slot (index + 1)
      else arena.slot index := by
  rw [closeGap, slot_release, slot_copy (by omega) (by omega)]
  by_cases moved : run + place ≤ index ∧ index < run + length - 1
  · rw [if_pos moved, if_pos (by omega)]
    congr 1
    omega
  · rw [if_neg moved, if_neg (by omega)]

theorem available_closeGap (arena : Arena) (run length place index : Nat) :
    (arena.closeGap run length place).available index =
      arena.available index + covers (run + length - 1) 1 index := by
  rw [closeGap, available_release _ _ (by omega), available_copy]

theorem Sane.closeGap (sane : arena.Sane) (inside : run + length ≤ arena.slots.size)
    (placed : place < length) : (arena.closeGap run length place).Sane :=
  (sane.copy (by omega) (by omega)).release _ _

end Gap

end Arena

section Among

variable {arena : Arena} {index run : Nat} {labels : LabelSet} {children : Label → Tree}
  {label : Label} {key : Int32} {value : Nat} {nested : Option Nat}

/-- The children that are left stand where the closed gap has put them. -/
theorem holds_eraseAmong (held : (Tree.node labels run children).Holds arena.slot index)
    (apart : (Tree.node labels run children).Apart arena index)
    (member : labels.contains label = true) {slot : Nat → Slot}
    (content : ∀ other, other ≠ index → slot other =
      if run + labels.rank label.val ≤ other ∧ other < run + labels.size - 1 then
        arena.slot (other + 1)
      else arena.slot other) (other : Label) :
    (Function.update children label .absent other).Holds slot
      (run + (labels.erase label).rank other.val) := by
  have placed := LabelSet.rank_lt_size member
  by_cases same : other = label
  · subst same
    rw [Function.update_self]
    trivial
  · rw [Function.update_of_ne same]
    refine held.child_congr (fun sibling => ?_) fun slot claimed => ?_
    · have placedOther := LabelSet.rank_lt_size sibling
      have rank := LabelSet.rank_erase member (Nat.le_of_lt other.isLt)
      rcases Nat.lt_trichotomy other.val label.val with less | equal | more
      · have lower := LabelSet.rank_lt_rank sibling less
        rw [if_neg (by omega)] at rank
        rw [content _ (apart.inRun (by omega) (by omega)).other, if_neg (by omega)]
        congr 1
        omega
      · exact absurd (Fin.ext equal) same
      · have upper := LabelSet.rank_lt_rank member more
        rw [if_pos more] at rank
        rw [content _ (apart.inRun (by omega) (by omega)).other, if_pos (by omega)]
        congr 1
        omega
    · rw [content slot (apart.inChild claimed).other, if_neg]
      rintro ⟨low, high⟩
      have none := (apart.inRun (show run ≤ slot by omega) (by omega)).unclaimed other
      omega

/-- One of several children of a node taken away. -/
theorem change_eraseAmong (held : (Tree.node labels run children).Holds arena.slot index)
    (apart : (Tree.node labels run children).Apart arena index)
    (entry : children label = .entry key value nested) :
    Change arena
      ((arena.closeGap run labels.size (labels.rank label.val)).write index
        (.node (labels.erase label) run 0))
      (.node labels run children)
      (.node (labels.erase label) run (Function.update children label .absent)) index := by
  have known := held.2.1
  have member : labels.contains label = true := by rw [known, entry]; rfl
  have placed := LabelSet.rank_lt_size member
  have shorter := LabelSet.size_erase member
  have fits : run + labels.size ≤ arena.slots.size := by
    have last := (apart.inRun (show run ≤ run + labels.size - 1 by omega) (by omega)).inside
    omega
  have insideIndex : index < (arena.closeGap run labels.size
      (labels.rank label.val)).slots.size := by
    rw [Arena.size_closeGap]
    exact apart.lt_size
  have content : ∀ other, other ≠ index →
      ((arena.closeGap run labels.size (labels.rank label.val)).write index
        (.node (labels.erase label) run 0)).slot other =
      if run + labels.rank label.val ≤ other ∧ other < run + labels.size - 1 then
        arena.slot (other + 1)
      else arena.slot other := by
    intro other elsewhere
    rw [Arena.slot_write insideIndex, if_neg elsewhere, Arena.slot_closeGap fits placed]
  refine ⟨rfl, fun _ => rfl, ⟨⟨0, ?_⟩, ?_, holds_eraseAmong held apart member content⟩, ?_, ?_, ?_⟩
  · rw [Arena.slot_write insideIndex, if_pos rfl]
  · intro other
    rw [LabelSet.contains_erase]
    by_cases same : other = label
    · subst same
      simp [Tree.present]
    · rw [Function.update_of_ne same, known]
      simp [same]
  · intro other
    have replaced := Tree.claims_update labels run children label .absent other
    rw [entry] at replaced
    have split := covers_add run (labels.erase label).size 1 other
    rw [shorter] at split
    have last : run + labels.size - 1 = run + (labels.erase label).size := by omega
    rw [Arena.available_write, Arena.available_closeGap, last]
    simp only [Tree.claims] at replaced ⊢
    omega
  · intro other elsewhere unclaimed _
    rw [content other elsewhere, if_neg]
    rintro ⟨low, high⟩
    simp only [Tree.claims] at unclaimed
    rw [covers_of_mem (show run ≤ other by omega) (by omega)] at unclaimed
    omega
  · intro sane
    exact (sane.closeGap fits placed).write insideIndex (sane.storable_node (by omega) _)

end Among

/-- A node without the child under one of its labels.  A node that loses its only child forgets its
run. -/
def Tree.pruned (labels : LabelSet) (run : Nat) (children : Label → Tree) (label : Label) : Tree :=
  if labels.size = 1 then .bare
  else .node (labels.erase label) run (Function.update children label .absent)

theorem Tree.Filed.pruned {loose : Prop} {labels : LabelSet} {run level path : Nat}
    {children : Label → Tree} {label : Label}
    (filed : (Tree.node labels run children).Filed loose level path) (shallow : level < levels) :
    (Tree.pruned labels run children label).Filed loose level path := by
  unfold Tree.pruned
  split
  next => exact Tree.filed_bare loose shallow path
  next =>
    have absent : Tree.absent.Filed loose (level + 1) (path + label.val * Label.weight level) :=
      trivial
    exact ⟨.inl shallow, (filed.update absent).2⟩

/-- Without the entry of a key a node says nothing about the key, and of others what it said. -/
theorem Tree.lookup_pruned {labels : LabelSet} {run level value : Nat} {children : Label → Tree}
    {key : Int32} {nested : Option Nat}
    (known : ∀ label, labels.contains label = (children label).present)
    (entry : children (Label.ofKey key level) = .entry key value nested) (other : Int32) :
    (Tree.pruned labels run children (Label.ofKey key level)).lookup other level =
      if other = key then none else (Tree.node labels run children).lookup other level := by
  have member : labels.contains (Label.ofKey key level) = true := by rw [known, entry]; rfl
  by_cases along : Label.ofKey other level = Label.ofKey key level
  · -- The key shares its label with the erased one, so there is nothing below it either way.
    have before : (Tree.node labels run children).lookup other level =
        if key = other then some (value, nested) else none := by
      rw [Tree.lookup, along, entry, Tree.lookup]
    have after : (Tree.pruned labels run children (Label.ofKey key level)).lookup other level =
        none := by
      unfold Tree.pruned
      split
      next => rfl
      next => rw [Tree.lookup_update, if_pos along, Tree.lookup]
    rw [after, before]
    by_cases same : other = key
    · rw [if_pos same]
    · rw [if_neg same, if_neg (Ne.symm same)]
  · have differ : other ≠ key := fun equal => along (equal ▸ rfl)
    rw [if_neg differ]
    unfold Tree.pruned
    split
    next single =>
      rw [Tree.lookup, Tree.absent_of_single known single member along]
      rfl
    next =>
      rw [Tree.lookup_update, if_neg along]
      rfl

/-- An entry that is a child of a node taken away. -/
theorem change_pruned {arena : Arena} {index run : Nat} {labels : LabelSet}
    {children : Label → Tree} {label : Label} {key : Int32} {value : Nat} {nested : Option Nat}
    (held : (Tree.node labels run children).Holds arena.slot index)
    (apart : (Tree.node labels run children).Apart arena index)
    (entry : children label = .entry key value nested) :
    Change arena (arena.eraseChild index label) (.node labels run children)
      (.pruned labels run children label) index := by
  have known := held.2.1
  obtain ⟨spare, here⟩ := held.1
  simp only [Arena.eraseChild, Tree.pruned, here, Slot.labels, Slot.run, Slot.child]
  split
  next single => exact change_eraseOnly apart known entry single
  next =>
    have tail : run + labels.size - 1 - (run + labels.rank label.val) =
        labels.size - 1 - labels.rank label.val := by omega
    rw [tail, ← Arena.closeGap]
    exact change_eraseAmong held apart entry

/-- An entry erased from a node; the node says nothing about its key any more, and of other keys
what it said before. -/
theorem change_eraseChild {loose : Prop} {arena : Arena} {level path index run : Nat}
    {labels : LabelSet} {children : Label → Tree} {key : Int32} {value : Nat} {nested : Option Nat}
    (whole : (Tree.node labels run children).Stands loose arena level path index)
    (entry : children (Label.ofKey key level) = .entry key value nested) :
    ∃ new, Change arena (arena.eraseChild index (Label.ofKey key level))
        (.node labels run children) new index ∧ new.Filed loose level path ∧
      ∀ other, new.lookup other level =
        if other = key then none else (Tree.node labels run children).lookup other level := by
  have known := whole.held.2.1
  have member : labels.contains (Label.ofKey key level) = true := by rw [known, entry]; rfl
  exact ⟨_, change_pruned whole.held whole.apart entry,
    whole.filed.pruned (whole.filed.shallow member), Tree.lookup_pruned known entry⟩

/-! ### Finding an entry -/

namespace Forest

/-- A tree leads to the entry of a key: the entry is a child of a node below it. -/
structure Found (key : Int32) (tree : Tree) (level path index : Nat) (place : Place)
    (labels : LabelSet) (run : Nat) (children : Label → Tree) (value : Nat) (nested : Option Nat)
    (pathBelow : Nat) : Prop where
  leads : Tree.Leads key (.node labels run children) place.level pathBelow place.parent tree level
    path index
  member : labels.contains (Label.ofKey key place.level) = true
  entry : children (Label.ofKey key place.level) = .entry key value nested
  slot : place.slot = run + labels.rank (Label.ofKey key place.level).val
  said : tree.lookup key level = some (value, nested)

section Finding

variable {arena : Arena} {key : Int32} {level path index run : Nat} {labels : LabelSet}
  {children : Label → Tree}

/-- A place that is found is that of an entry of the tree. -/
theorem Finds.found {remaining : Nat} {place : Place}
    (finds : Finds arena key remaining level index place)
    (held : (Tree.node labels run children).Holds arena.slot index) (path : Nat) :
    ∃ labelsBelow runBelow childrenBelow value nested pathBelow,
      Found key (.node labels run children) level path index place labelsBelow runBelow childrenBelow
        value nested pathBelow := by
  induction finds generalizing labels run children path with
  | here step here =>
      obtain ⟨member, rfl⟩ := held.descends step
      have shape := held.child_eq_entry member here
      exact ⟨labels, run, children, _, _, path, .here, member, shape, rfl,
        by simp only [Tree.lookup, shape, if_true]⟩
  | descended step inner _ ih =>
      obtain ⟨member, rfl⟩ := held.descends step
      obtain ⟨labelsBelow, runBelow, childrenBelow, shape⟩ := held.child_eq_node member inner
      have heldBelow : (Tree.node labelsBelow runBelow childrenBelow).Holds _ _ :=
        shape ▸ held.2.2 _
      obtain ⟨labelsFound, runFound, childrenFound, value, nested, pathFound, found⟩ :=
        ih heldBelow _
      rw [← shape] at found
      exact ⟨labelsFound, runFound, childrenFound, value, nested, pathFound,
        .down member found.leads, found.member, found.entry, found.slot, found.said⟩

/-- Where a tree says something about a key, following its labels finds the entry. -/
theorem exists_finds {loose : Prop} (remaining : Nat) :
    ∀ {level path index run : Nat} {labels : LabelSet} {children : Label → Tree}
      {content : Nat × Option Nat}, remaining + level = levels →
      (Tree.node labels run children).Holds arena.slot index →
      (Tree.node labels run children).Filed loose level path →
      (Tree.node labels run children).lookup key level = some content →
      ∃ place, Finds arena key remaining level index place := by
  induction remaining with
  | zero =>
      intro level path index run labels children content total held filed said
      cases said.symm.trans (held.lookup_of_deep filed (by omega) key)
  | succ remaining ih =>
      intro level path index run labels children content total held filed said
      have known := held.2.1 (Label.ofKey key level)
      have below := held.2.2 (Label.ofKey key level)
      have filedBelow := filed.2 (Label.ofKey key level)
      rw [Tree.lookup] at said
      cases shape : children (Label.ofKey key level) with
      | absent => simp [shape, Tree.lookup] at said
      | entry resident value nested =>
          rw [shape] at known below said
          rw [Tree.lookup] at said
          split at said
          next same => exact ⟨_, .here (held.descend known) (same ▸ below)⟩
          next => cases said
      | node labelsBelow runBelow childrenBelow =>
          rw [shape] at known below filedBelow said
          obtain ⟨place, finds⟩ := ih (by omega) below filedBelow said
          exact ⟨place, .descended (held.descend known) below.isEntry_eq_false finds⟩

/-- Following the labels of a key finds its entry, if the tree has one. -/
theorem locateFrom_spec {loose : Prop} {remaining : Nat} (total : remaining + level = levels)
    (held : (Tree.node labels run children).Holds arena.slot index)
    (filed : (Tree.node labels run children).Filed loose level path) :
    (locateFrom arena key remaining level index = none ∧
        (Tree.node labels run children).lookup key level = none) ∨
      ∃ place labelsBelow runBelow childrenBelow value nested pathBelow,
        locateFrom arena key remaining level index = some place ∧
        Found key (.node labels run children) level path index place labelsBelow runBelow
          childrenBelow value nested pathBelow := by
  cases located : locateFrom arena key remaining level index with
  | some place =>
      obtain ⟨labelsBelow, runBelow, childrenBelow, value, nested, pathBelow, found⟩ :=
        (finds_of_locateFrom remaining located).found held path
      exact .inr ⟨place, labelsBelow, runBelow, childrenBelow, value, nested, pathBelow, rfl, found⟩
  | none =>
      refine .inl ⟨rfl, Option.eq_none_iff_forall_ne_some.mpr fun content said => ?_⟩
      obtain ⟨place, finds⟩ := exists_finds remaining total held filed said
      cases located.symm.trans finds.locateFrom_eq

end Finding

end Forest

end Lexicon

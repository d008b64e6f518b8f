/-
Module: Lexicon.Proofs.Forest.Thrift
Layer: Proofs
Purpose: Trees in which every node below another one parts two keys, and the changes that leave trees
  like that.
Imports: Lexicon.Proofs.Forest.Tree
Trusted boundary: none
Main exports: Tree.Crowded, Tree.Thrifty, Tree.Sparing, Tree.Sparing.child
-/
import Lexicon.Proofs.Forest.Tree

namespace Lexicon

/-!
An entry stands at the first level where no other key of its table shares its labels.  So a table to
which keys were only ever added has no node, but the topmost one, that is not needed to tell two of its
keys apart.  Erasing does not keep to this: the nodes above an erased entry stay.
-/

namespace Tree

/-- Two different keys have entries in a tree. -/
def Crowded (tree : Tree) (level : Nat) : Prop :=
  ∃ first second, first ≠ second ∧ (tree.lookup first level).isSome = true ∧
    (tree.lookup second level).isSome = true

/-- All nodes below the topmost one are crowded. -/
def Thrifty : Tree → (level : Nat) → Prop
  | .absent, _ => True
  | .entry .., _ => True
  | .node _ _ children, level => ∀ label, (children label).Thrifty (level + 1) ∧
      ((children label).isNode = true → (children label).Crowded (level + 1))

theorem thrifty_bare (level : Nat) : bare.Thrifty level := fun _ => ⟨trivial, nofun⟩

/-- No key gets lost when a tree becomes another, and no node comes about that is not needed. -/
structure Sparing (old new : Tree) (level : Nat) : Prop where
  kept : ∀ key, (old.lookup key level).isSome = true → (new.lookup key level).isSome = true
  thrifty : old.Thrifty level → new.Thrifty level
  crowded : old.isNode = false → new.isNode = true → new.Crowded level

namespace Sparing

variable {first second third : Tree} {level : Nat}

theorem crowd (sparing : Sparing first second level) (crowded : first.Crowded level) :
    second.Crowded level := by
  obtain ⟨key, other, differ, has, hasOther⟩ := crowded
  exact ⟨key, other, differ, sparing.kept key has, sparing.kept other hasOther⟩

/-- Where there was nothing there may be an entry. -/
theorem entry_absent (key : Int32) (value : Nat) (nested : Option Nat) (level : Nat) :
    Sparing .absent (.entry key value nested) level := ⟨nofun, fun _ => trivial, nofun⟩

/-- An entry may say something else about its key. -/
theorem entry (key : Int32) (old new : Nat) (before after : Option Nat) (level : Nat) :
    Sparing (.entry key old before) (.entry key new after) level := by
  refine ⟨fun other has => ?_, fun _ => trivial, nofun⟩
  simp only [lookup] at has ⊢
  split at has
  next same =>
    rw [if_pos same]
    rfl
  next => cases has

/-- What spares a child spares its parent, which may get more labels and another run. -/
theorem child {labels wider : LabelSet} {run other : Nat} {children : Label → Tree} {label : Label}
    {new : Tree} (sparing : Sparing (children label) new (level + 1)) :
    Sparing (.node labels run children) (.node wider other (Function.update children label new))
      level := by
  refine ⟨fun key has => ?_, fun thrifty name => ?_, nofun⟩
  · rw [lookup_update]
    split
    next same =>
      rw [lookup, same] at has
      exact sparing.kept key has
    next => exact has
  · by_cases same : name = label
    · subst same
      rw [Function.update_self]
      refine ⟨sparing.thrifty (thrifty name).1, fun node => ?_⟩
      cases before : (children name).isNode with
      | false => exact sparing.crowded before node
      | true => exact sparing.crowd ((thrifty name).2 before)
    · rw [Function.update_of_ne same]
      exact thrifty name

end Sparing

end Tree

end Lexicon

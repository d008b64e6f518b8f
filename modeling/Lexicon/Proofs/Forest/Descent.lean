/-
Module: Lexicon.Proofs.Forest.Descent
Layer: Proofs
Purpose: What storing a value and looking a key up do from one level to the next, and what creating a
  nested table does, said once.
Imports: Lexicon.Forest.Basic
Trusted boundary: none
Main exports: Arena.Descends, Forest.Finds, Forest.finds_of_locateFrom,
  Forest.Finds.locateFrom_eq, Forest.Stores, Forest.stores_putFrom, Forest.Stores.putFrom_eq,
  Forest.stores_put, Forest.Stores.put_eq, Forest.Nests, Forest.exists_nests
-/
import Lexicon.Forest.Basic

namespace Lexicon

/-!
Whatever is to be shown about these two walks is shown along the same few cases: a level is gone down,
or the walk ends.  The cases have names here, and what each of them may rely on is written beside it,
so that a proof about a walk does not have to open it again.
-/

/-- A node has a child under the label that a key has at a level, and that is where it stands. -/
structure Arena.Descends (arena : Arena) (key : Int32) (level node child : Nat) : Prop where
  member : (arena.slot node).labels.contains (Label.ofKey key level) = true
  child : (arena.slot node).child (Label.ofKey key level) = child

namespace Forest

/-! ### Looking a key up -/

section Finding

variable {arena : Arena} {key : Int32}

/-- The labels of a key lead from a node to the place of the key's entry, within the levels that are
left. -/
inductive Finds (arena : Arena) (key : Int32) : (remaining level node : Nat) → Place → Prop
  | here {remaining level node child value : Nat} {nested : Option Nat}
      (step : arena.Descends key level node child)
      (found : arena.slot child = .entry key value nested) :
      Finds arena key (remaining + 1) level node ⟨node, child, level⟩
  | descended {remaining level node child : Nat} {place : Place}
      (step : arena.Descends key level node child)
      (inner : (arena.slot child).isEntry = false)
      (further : Finds arena key remaining (level + 1) child place) :
      Finds arena key (remaining + 1) level node place

/-- A place that the search answers with is one to which the labels lead. -/
theorem finds_of_locateFrom {place : Place} (remaining : Nat) : ∀ {level node : Nat},
    locateFrom arena key remaining level node = some place →
      Finds arena key remaining level node place := by
  induction remaining with
  | zero => exact fun located => by cases located
  | succ remaining ih =>
      intro level node located
      simp only [locateFrom] at located
      split at located
      next member =>
        split at located
        next found value nested here =>
          split at located
          next same =>
            cases located
            exact .here ⟨member, rfl⟩ (same ▸ here)
          next => cases located
        next inner => exact .descended ⟨member, rfl⟩ (by rw [inner]; rfl) (ih located)
      next => cases located

/-- Where a place is found there is the entry of the key. -/
theorem Finds.exists_entry {remaining level node : Nat} {place : Place}
    (finds : Finds arena key remaining level node place) :
    ∃ value nested, arena.slot place.slot = .entry key value nested := by
  induction finds with
  | here step found => exact ⟨_, _, found⟩
  | descended _ _ _ ih => exact ih

/-- The search answers with the place to which the labels lead. -/
theorem Finds.locateFrom_eq {remaining level node : Nat} {place : Place}
    (finds : Finds arena key remaining level node place) :
    locateFrom arena key remaining level node = some place := by
  induction finds with
  | here step found => simp [locateFrom, step.member, step.child, found]
  | @descended remaining level node child place step inner _ ih =>
      simp only [locateFrom, step.member, step.child, if_true]
      cases here : arena.slot child with
      | entry =>
          rw [here] at inner
          cases inner
      | node => exact ih

end Finding

/-! ### Storing a value -/

/-- What storing a value does from a node on: it goes down to a child that is a node, or to the node
that it puts in the place of another key's entry, or it ends with an answer.  What is left behind is
told also where the value is refused. -/
inductive Stores (key : Int32) (value : Nat) :
    (remaining level node : Nat) → Forest → Except Error Unit → Forest → Prop
  /-- No level is left. -/
  | bottom {level node : Nat} {forest : Forest} :
      Stores key value 0 level node forest (.error (.format (.keyTooDeep key))) forest
  /-- The node lacks the label, and there is no room for a longer run. -/
  | refused {remaining level node count : Nat} {arena next : Arena}
      (missing : (arena.slot node).labels.contains (Label.ofKey key level) = false)
      (insertion : arena.insertChild node (Label.ofKey key level) (.entry key value none) =
        (false, next)) :
      Stores key value (remaining + 1) level node ⟨arena, count⟩ (.error .forestFull) ⟨next, count⟩
  /-- The node lacks the label, and gets a child. -/
  | inserted {remaining level node count : Nat} {arena next : Arena}
      (missing : (arena.slot node).labels.contains (Label.ofKey key level) = false)
      (insertion : arena.insertChild node (Label.ofKey key level) (.entry key value none) =
        (true, next)) :
      Stores key value (remaining + 1) level node ⟨arena, count⟩ (.ok ()) ⟨next, count + 1⟩
  /-- The child is the entry of the key. -/
  | replaced {remaining level node child count old : Nat} {nested : Option Nat} {arena : Arena}
      (step : arena.Descends key level node child)
      (here : arena.slot child = .entry key old nested) :
      Stores key value (remaining + 1) level node ⟨arena, count⟩ (.ok ())
        ⟨arena.write child (.entry key value nested), count⟩
  /-- The child is the entry of another key, and no level is left below. -/
  | clashed {level node child count old : Nat} {resident : Int32} {nested : Option Nat}
      {arena : Arena} (step : arena.Descends key level node child)
      (here : arena.slot child = .entry resident old nested) (differ : resident ≠ key) :
      Stores key value 1 level node ⟨arena, count⟩ (.error (.format (.keyTooDeep key)))
        ⟨arena, count⟩
  /-- The child is the entry of another key, and there is no room to push it down. -/
  | blocked {remaining level node child count old : Nat} {resident : Int32} {nested : Option Nat}
      {arena next : Arena} (step : arena.Descends key level node child)
      (here : arena.slot child = .entry resident old nested) (differ : resident ≠ key)
      (pushing : arena.pushDown child level resident (.entry resident old nested) = (false, next)) :
      Stores key value (remaining + 2) level node ⟨arena, count⟩ (.error .forestFull) ⟨next, count⟩
  /-- The child is the entry of another key, which is pushed down. -/
  | pushed {remaining level node child count old : Nat} {resident : Int32} {nested : Option Nat}
      {arena next : Arena} {answer : Except Error Unit} {after : Forest}
      (step : arena.Descends key level node child)
      (here : arena.slot child = .entry resident old nested) (differ : resident ≠ key)
      (pushing : arena.pushDown child level resident (.entry resident old nested) = (true, next))
      (further : Stores key value (remaining + 1) (level + 1) child ⟨next, count⟩ answer after) :
      Stores key value (remaining + 2) level node ⟨arena, count⟩ answer after
  /-- The child is a node. -/
  | descended {remaining level node child count : Nat} {arena : Arena} {answer : Except Error Unit}
      {after : Forest} (step : arena.Descends key level node child)
      (inner : (arena.slot child).isEntry = false)
      (further : Stores key value remaining (level + 1) child ⟨arena, count⟩ answer after) :
      Stores key value (remaining + 1) level node ⟨arena, count⟩ answer after

section Storing

variable {key : Int32} {value remaining level node : Nat} {forest after : Forest}
  {answer : Except Error Unit}

/-- Storing a value is one of its cases. -/
theorem stores_putFrom (key : Int32) (value remaining level node : Nat) (forest : Forest) :
    Stores key value remaining level node forest
      (putFrom key value remaining level node forest).1
      (putFrom key value remaining level node forest).2 := by
  induction remaining generalizing level node forest with
  | zero => exact .bottom
  | succ remaining ih =>
      obtain ⟨arena, count⟩ := forest
      simp only [putFrom]
      split
      next member =>
        have step : arena.Descends key level node _ := ⟨member, rfl⟩
        split
        next inner => exact .descended step (by rw [inner]; rfl) (ih _ _ _)
        next resident old nested here =>
          split
          next same => exact .replaced step (same ▸ here)
          next differ =>
            cases remaining with
            | zero => exact .clashed step here differ
            | succ remaining =>
                rw [if_neg (Nat.succ_ne_zero remaining)]
                split
                next pushing => exact .blocked step here differ pushing
                next pushing => exact .pushed step here differ pushing (ih _ _ _)
      next member =>
        have missing := Bool.eq_false_iff.mpr member
        split
        next insertion => exact .refused missing insertion
        next insertion => exact .inserted missing insertion

/-- Each case is what storing a value does there. -/
theorem Stores.putFrom_eq (stores : Stores key value remaining level node forest answer after) :
    putFrom key value remaining level node forest = (answer, after) := by
  induction stores with
  | bottom => rfl
  | refused missing insertion => simp [putFrom, missing, insertion]
  | inserted missing insertion => simp [putFrom, missing, insertion]
  | replaced step here => simp [putFrom, step.member, step.child, here]
  | clashed step here differ => simp [putFrom, step.member, step.child, here, differ]
  | blocked step here differ pushing =>
      rw [putFrom]
      simp [step.member, step.child, here, differ, pushing]
  | pushed step here differ pushing _ ih =>
      rw [putFrom]
      simp [step.member, step.child, here, differ, pushing, ih]
  | @descended remaining level node child count arena answer after step inner _ ih =>
      rw [putFrom]
      simp only [step.member, step.child, if_true]
      cases here : arena.slot child with
      | entry =>
          rw [here] at inner
          cases inner
      | node => exact ih

/-- A value that fits is stored from the topmost node on. -/
theorem stores_put (forest : Forest) (table : Table) (key : Int32) {value : Nat}
    (fits : value ≤ maxValue) :
    Stores key value levels 0 table.slot forest (forest.put table key value).1
      (forest.put table key value).2 := by
  rw [put, if_neg (Nat.not_lt.mpr fits)]
  exact stores_putFrom key value levels 0 table.slot forest

/-- What is stored from the topmost node on is the value of the key. -/
theorem Stores.put_eq {table : Table} (fits : value ≤ maxValue)
    (stores : Stores key value levels 0 table.slot forest answer after) :
    forest.put table key value = (answer, after) := by
  rw [put, if_neg (Nat.not_lt.mpr fits), stores.putFrom_eq]

/-- Where the entry of a key is found, its value is replaced. -/
theorem Finds.stores {arena : Arena} {place : Place}
    (finds : Finds arena key remaining level node place) (value count : Nat) :
    ∃ old nested, arena.slot place.slot = .entry key old nested ∧
      Stores key value remaining level node ⟨arena, count⟩ (.ok ())
        ⟨arena.write place.slot (.entry key value nested), count⟩ := by
  induction finds with
  | here step found => exact ⟨_, _, found, .replaced step found⟩
  | descended step inner _ ih =>
      obtain ⟨old, nested, found, stores⟩ := ih
      exact ⟨old, nested, found, .descended step inner stores⟩

end Storing

/-! ### Nesting a table -/

/-- What creating a table below a key does. -/
inductive Nests (table : Table) (key : Int32) : Forest → Option Table → Forest → Prop
  /-- The table lacks the key. -/
  | lacking {forest : Forest} (nowhere : forest.locate table key = none) :
      Nests table key forest none forest
  /-- There is a nested table already. -/
  | known {forest : Forest} {place : Place} {value nested : Nat}
      (located : forest.locate table key = some place)
      (here : forest.arena.slot place.slot = .entry key value (some nested)) :
      Nests table key forest (some ⟨nested⟩) forest
  /-- There is no room for an empty node. -/
  | refused {arena next : Arena} {count value : Nat} {place : Place}
      (located : locate ⟨arena, count⟩ table key = some place)
      (here : arena.slot place.slot = .entry key value none)
      (allocation : arena.alloc 1 = (none, next)) :
      Nests table key ⟨arena, count⟩ none ⟨next, count⟩
  /-- The entry refers to an empty node then. -/
  | founded {arena next : Arena} {count value offset : Nat} {place : Place}
      (located : locate ⟨arena, count⟩ table key = some place)
      (here : arena.slot place.slot = .entry key value none)
      (allocation : arena.alloc 1 = (some offset, next)) :
      Nests table key ⟨arena, count⟩ (some ⟨offset⟩)
        ⟨(next.write offset Slot.empty).write place.slot (.entry key value (some offset)), count⟩

/-- Creating a table is one of its cases. -/
theorem exists_nests (forest : Forest) (table : Table) (key : Int32) :
    ∃ answer after, forest.createNested? table key = (answer, after) ∧
      Nests table key forest answer after := by
  suffices nests : Nests table key forest (forest.createNested? table key).1
      (forest.createNested? table key).2 from ⟨_, _, rfl, nests⟩
  obtain ⟨arena, count⟩ := forest
  unfold createNested?
  cases located : locate ⟨arena, count⟩ table key with
  | none => exact .lacking located
  | some place =>
      obtain ⟨value, nested, here⟩ := (finds_of_locateFrom levels located).exists_entry
      dsimp only at here ⊢
      rw [here]
      cases nested with
      | some nested => exact .known located here
      | none =>
          dsimp only
          split
          next allocation => exact .refused located here allocation
          next allocation => exact .founded located here allocation

/-- Each case is what creating a table does there. -/
theorem Nests.createNested_eq {table : Table} {key : Int32} {forest after : Forest}
    {answer : Option Table} (nests : Nests table key forest answer after) :
    forest.createNested? table key = (answer, after) := by
  cases nests with
  | lacking nowhere => simp only [createNested?, nowhere]
  | known located here => simp only [createNested?, located, here]
  | refused located here allocation => simp only [createNested?, located, here, allocation]
  | founded located here allocation => simp only [createNested?, located, here, allocation]

end Forest

end Lexicon

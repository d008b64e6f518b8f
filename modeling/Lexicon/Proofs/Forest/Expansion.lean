/-
Module: Lexicon.Proofs.Forest.Expansion
Layer: Proofs
Purpose: By how many slots an operation can make a forest larger, whatever its arena holds.
Imports: Lexicon.Proofs.Forest.Tidiness
Trusted boundary: none
Main exports: Forest.slotCount_put_le, Forest.createNested_of_nested
-/
import Lexicon.Proofs.Forest.Tidiness

namespace Lexicon

/-!
Storing a value takes one run for the children of one node and one more, or a slot for each entry
that is pushed down and then a run of at most two.  For this nothing has to be known about the
arena: once an entry was pushed down, the node in its place has just been written and has a single
child.
-/

namespace Arena

/-- A node has at most one child, which is an entry or leads to no other node with children.  In an
arena that says anything the slot that an entry is pushed down to may be that of the node itself, or
none. -/
def Slender (arena : Arena) (node : Nat) : Prop :=
  (arena.slot node).labels.size ≤ 1 ∧
    ∀ label, (arena.slot node).labels.contains label = true →
      (arena.slot ((arena.slot node).child label)).isEntry = true ∨
        (arena.slot node).child label = node ∨
        arena.slot ((arena.slot node).child label) = Slot.empty

theorem slender_of_empty {arena : Arena} {node : Nat} (bare : arena.slot node = Slot.empty) :
    arena.Slender node := by
  rw [Slender, bare]
  refine ⟨?_, fun label member => ?_⟩
  · rw [show Slot.empty.labels = LabelSet.empty from rfl, LabelSet.size_empty]
    exact Nat.zero_le 1
  · rw [show Slot.empty.labels = LabelSet.empty from rfl, LabelSet.contains_empty] at member
    cases member

/-- The node that takes the place of an entry is slender. -/
theorem slender_pushDown {arena next : Arena} {index level : Nat} {key : Int32} {entry : Slot}
    (here : (arena.slot index).isEntry = true) (isEntry : entry.isEntry = true)
    (pushed : arena.pushDown index level key entry = (true, next)) : next.Slender index := by
  have inside : index < arena.slots.size := by
    rcases Nat.lt_or_ge index arena.slots.size with inside | outside
    · exact inside
    · rw [slot_of_size_le outside] at here
      cases here
  unfold pushDown at pushed
  split at pushed
  next => cases pushed
  next run middle allocated =>
    cases pushed
    have grown := (grows_alloc allocated).least
    have within : index < (middle.write run entry).slots.size := by
      rw [size_write]
      exact Nat.lt_of_lt_of_le inside grown
    have node := slot_write within (.node (LabelSet.singleton (Label.ofKey key (level + 1))) run 0)
    rw [Slender, node index, if_pos rfl]
    refine ⟨Nat.le_of_eq (LabelSet.size_singleton _), fun label member => ?_⟩
    rw [Slot.labels, LabelSet.contains_singleton, decide_eq_true_eq] at member
    simp only [Slot.child, Slot.run, Slot.labels, member, LabelSet.rank_singleton_self,
      Nat.add_zero, node run]
    split
    next same => exact .inr (.inl same)
    next =>
      rcases Nat.lt_or_ge run middle.slots.size with known | outside
      · rw [slot_write known, if_pos rfl]
        exact .inl isEntry
      · refine .inr (.inr (slot_of_size_le ?_))
        rw [size_write]
        exact outside

end Arena

namespace Forest

section Storing

variable {key : Int32} {value remaining level node : Nat} {forest after : Forest}
  {answer : Except Error Unit}

/-- From a slender node on, an entry is pushed down at most once for every level, and the last run
is one of at most two slots. -/
theorem Stores.slotCount_le_of_slender
    (stores : Stores key value remaining level node forest answer after)
    (slender : forest.arena.Slender node) :
    after.slotCount ≤ forest.slotCount + (remaining + 1) := by
  simp only [slotCount]
  induction stores with
  | bottom => exact Nat.le_add_right _ _
  | refused _ insertion | inserted _ insertion =>
      have grown := (Arena.grows_insertChild insertion).most
      have narrow := slender.1
      dsimp only at narrow ⊢
      omega
  | replaced => simp
  | clashed => exact Nat.le_add_right _ _
  | blocked _ _ _ pushing =>
      have grown := (Arena.grows_pushDown pushing).most
      dsimp only
      omega
  | pushed _ here _ pushing _ ih =>
      have grown := (Arena.grows_pushDown pushing).most
      have further := ih (Arena.slender_pushDown (by rw [here]; rfl) rfl pushing)
      dsimp only at further ⊢
      omega
  | descended step inner _ ih =>
      refine Nat.le_trans (ih ?_) (by omega)
      -- What is below a slender node is no other node with children.
      rcases slender.2 _ step.member with isEntry | same | bare
      · rw [step.child, inner] at isEntry
        cases isEntry
      · rw [step.child] at same
        rw [same]
        exact slender
      · rw [step.child] at bare
        exact Arena.slender_of_empty bare

/-- Storing a value takes one run of at most thirty-two slots, or pushes entries down from a single
place on. -/
theorem Stores.slotCount_le_add (stores : Stores key value remaining level node forest answer after)
    (few : remaining ≤ levels) : after.slotCount ≤ forest.slotCount + 32 := by
  have total : levels = 7 := rfl
  simp only [slotCount]
  induction stores with
  | bottom => exact Nat.le_add_right _ _
  | refused missing insertion | inserted missing insertion =>
      have grown := (Arena.grows_insertChild insertion).most
      have narrow := LabelSet.size_lt_of_lacking missing
      dsimp only
      omega
  | replaced => simp
  | clashed => exact Nat.le_add_right _ _
  | blocked _ _ _ pushing =>
      have grown := (Arena.grows_pushDown pushing).most
      dsimp only
      omega
  | pushed _ here _ pushing further =>
      -- below the new node the walk meets slender nodes only
      have grown := (Arena.grows_pushDown pushing).most
      have below := further.slotCount_le_of_slender
        (Arena.slender_pushDown (by rw [here]; rfl) rfl pushing)
      simp only [slotCount] at below
      dsimp only
      omega
  | descended _ _ _ ih => exact ih (by omega)

end Storing

/-- Storing a value makes a forest larger by at most thirty-two slots. -/
theorem slotCount_put_le (forest : Forest) (table : Table) (key : Int32) (value : Nat) :
    (forest.put table key value).2.slotCount ≤ forest.slotCount + 32 := by
  rcases Nat.lt_or_ge maxValue value with wide | fits
  · rw [put_of_gt wide]
    exact Nat.le_add_right _ _
  · exact (stores_put forest table key fits).slotCount_le_add (Nat.le_refl _)

/-- Where a table is nested below a key, none is created. -/
theorem createNested_of_nested {forest : Forest} {table nested : Table} {key : Int32}
    (has : forest.nested? table key = some nested) :
    forest.createNested? table key = (some nested, forest) := by
  obtain ⟨arena, count⟩ := forest
  unfold nested? at has
  unfold createNested?
  split at has
  next => cases has
  next place located =>
    rw [located]
    split at has
    next known =>
      obtain ⟨slot, rfl, rfl⟩ := Option.map_eq_some_iff.mp has
      simp only [known]
    next => cases has

end Forest

end Lexicon

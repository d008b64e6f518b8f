/-
Module: Lexicon.Forest.LabelSet
Layer: Forest
Purpose: Labels of keys, and the sets of labels under which a node has children.
Trusted boundary: none
Main exports: Label, Label.weight, Label.ofKey, levels, LabelSet, LabelSet.rank, LabelSet.size
-/

namespace Lexicon

/-- A label is one digit of a key in base 32. -/
abbrev Label := Fin 32

/-- There are labels at all, so that numbers can be written for them. -/
instance Label.neZero : @NeZero Nat Zero.ofOfNat0 32 := ⟨Nat.succ_ne_zero 31⟩

/-- The number of labels that a key has: seven digits in base 32 cover 32 bits, and the last of
them holds the two highest bits. -/
def levels : Nat := 7

/-- How much a one at a level, counted from the lowest digit, adds to a key. -/
def Label.weight (level : Nat) : Nat := 1 <<< (5 * level)

theorem Label.weight_succ (level : Nat) :
    Label.weight (level + 1) = 32 * Label.weight level := by
  rw [weight, weight, Nat.shiftLeft_eq, Nat.shiftLeft_eq, Nat.mul_succ, Nat.pow_add]
  omega

/-- The label of a key at a level. -/
def Label.ofKey (key : Int32) (level : Nat) : Label :=
  Fin.ofNat 32 (key.toUInt32.toNat / Label.weight level)

/-- A set of labels, one bit for each. -/
structure LabelSet where
  bits : BitVec 32
deriving DecidableEq, Repr, Inhabited

namespace LabelSet

/-- The set without labels. -/
def empty : LabelSet := ⟨0#32⟩

/-- The set of one label. -/
def singleton (label : Label) : LabelSet := ⟨1#32 <<< label.val⟩

/-- Membership of a label. -/
def contains (labels : LabelSet) (label : Label) : Bool := labels.bits.getLsbD label.val

/-- The set with one more label. -/
def insert (labels : LabelSet) (label : Label) : LabelSet :=
  ⟨labels.bits ||| 1#32 <<< label.val⟩

/-- The set without one label. -/
def erase (labels : LabelSet) (label : Label) : LabelSet :=
  ⟨labels.bits &&& ~~~(1#32 <<< label.val)⟩

/-- How many members are below a bound.  Children stand in the order of their labels, so this is the
place of a label's child among its siblings. -/
def rank (labels : LabelSet) : (bound : Nat) → Nat
  | 0 => 0
  | bound + 1 => labels.rank bound + (labels.bits.getLsbD bound).toNat

/-- How many labels the set has. -/
def size (labels : LabelSet) : Nat := labels.rank 32

/-- The members in ascending order. -/
def toList (labels : LabelSet) : List Label :=
  (List.finRange 32).filter labels.contains

/-! ### What the operations do to membership and rank -/

@[simp] theorem contains_empty (label : Label) : empty.contains label = false := by
  simp [contains, empty]

@[simp] theorem contains_singleton (label other : Label) :
    (singleton label).contains other = decide (other = label) := by
  have bound := other.isLt
  simp only [contains, singleton, BitVec.getLsbD_shiftLeft, BitVec.getLsbD_one, Fin.ext_iff]
  by_cases same : other.val = label.val
  · simp [same]
  · by_cases below : other.val < label.val
    · simp [below, same]
    · have apart : other.val - label.val ≠ 0 := by omega
      simp [same, apart]

@[simp] theorem contains_insert (labels : LabelSet) (label other : Label) :
    (labels.insert label).contains other = (labels.contains other || decide (other = label)) := by
  rw [← contains_singleton]
  simp [contains, insert, singleton]

@[simp] theorem contains_erase (labels : LabelSet) (label other : Label) :
    (labels.erase label).contains other = (labels.contains other && !decide (other = label)) := by
  rw [← contains_singleton]
  have bound := other.isLt
  simp [contains, erase, singleton]

theorem rank_le_bound (labels : LabelSet) (bound : Nat) : labels.rank bound ≤ bound := by
  induction bound with
  | zero => exact Nat.le_refl 0
  | succ bound ih =>
      have bit := Bool.toNat_le (labels.bits.getLsbD bound)
      rw [rank]
      omega

theorem rank_mono (labels : LabelSet) {low high : Nat} (ordered : low ≤ high) :
    labels.rank low ≤ labels.rank high := by
  induction ordered with
  | refl => exact Nat.le_refl _
  | step _ ih => exact Nat.le_trans ih (Nat.le_add_right _ _)

/-- A member's rank is a place inside the run of children. -/
theorem rank_lt_size {labels : LabelSet} {label : Label} (member : labels.contains label = true) :
    labels.rank label.val < labels.size := by
  have step : labels.rank (label.val + 1) = labels.rank label.val + 1 := by
    rw [rank]
    simp only [contains] at member
    simp [member]
  have above : labels.rank (label.val + 1) ≤ labels.size :=
    labels.rank_mono (by omega)
  omega

theorem size_le (labels : LabelSet) : labels.size ≤ 32 := labels.rank_le_bound 32

end LabelSet

end Lexicon

/-
Module: Lexicon.Proofs.Forest.Label
Layer: Proofs
Purpose: How the labels of a key determine it, and where a label's child stands among its siblings
  when a label is added or taken away.
Imports: Lexicon.Forest.LabelSet
Trusted boundary: none
Main exports: Label.mod_weight_succ, Label.eq_of_mod_weight, LabelSet.rank_insert,
  LabelSet.rank_erase, LabelSet.rank_lt_rank, LabelSet.exists_rank_eq
-/
import Lexicon.Forest.LabelSet

namespace Lexicon

/-! ### Keys and their labels -/

namespace Label

theorem weight_pos (level : Nat) : 0 < weight level := by
  rw [weight, Nat.shiftLeft_eq, Nat.one_mul]
  exact Nat.two_pow_pos _

theorem val_ofKey (key : Int32) (level : Nat) :
    (ofKey key level).val = key.toUInt32.toNat / weight level % 32 := by
  simp [ofKey, Fin.ofNat]

/-- The digits of a key up to a level are those below it and the label at that level. -/
theorem mod_weight_succ (key : Int32) (level : Nat) :
    key.toUInt32.toNat % weight (level + 1) =
      key.toUInt32.toNat % weight level + (ofKey key level).val * weight level := by
  rw [weight_succ, Nat.mul_comm 32, Nat.mod_mul, val_ofKey, Nat.mul_comm]

/-- Below a path along its own labels, a key stays on that path one level further down. -/
theorem agrees_succ {key : Int32} {level path : Nat}
    (agrees : key.toUInt32.toNat % weight level = path) :
    key.toUInt32.toNat % weight (level + 1) = path + (ofKey key level).val * weight level := by
  rw [mod_weight_succ, agrees]

/-- All seven digits together are the whole key. -/
theorem mod_weight_levels (key : Int32) :
    key.toUInt32.toNat % weight levels = key.toUInt32.toNat := by
  apply Nat.mod_eq_of_lt
  have bound := key.toUInt32.toNat_lt
  have span : weight levels = 34359738368 := by decide
  omega

/-- Keys that agree in all seven digits are the same. -/
theorem eq_of_mod_weight {first second : Int32}
    (same : first.toUInt32.toNat % weight levels = second.toUInt32.toNat % weight levels) :
    first = second := by
  rw [mod_weight_levels, mod_weight_levels] at same
  have word : first.toUInt32 = second.toUInt32 := UInt32.toNat_inj.mp same
  exact congrArg UInt32.toInt32 word

/-- Different keys that agree in their lowest digits have a digit left to differ in. -/
theorem lt_levels_of_differ {first second : Int32} {level : Nat} (within : level ≤ levels)
    (differ : first ≠ second)
    (same : first.toUInt32.toNat % weight level = second.toUInt32.toNat % weight level) :
    level < levels := by
  refine Nat.lt_of_le_of_ne within ?_
  rintro rfl
  exact differ (eq_of_mod_weight same)

end Label

/-! ### Ranks -/

namespace LabelSet

theorem getLsbD_bits (labels : LabelSet) {bound : Nat} (inside : bound < 32) :
    labels.bits.getLsbD bound = labels.contains ⟨bound, inside⟩ := rfl

/-- The label sets with the same members are equal. -/
theorem ext_contains {first second : LabelSet}
    (same : ∀ label, first.contains label = second.contains label) : first = second := by
  cases first with
  | mk bits =>
      cases second with
      | mk others =>
          congr 1
          apply BitVec.eq_of_getLsbD_eq
          intro bound inside
          exact same ⟨bound, inside⟩

/-- A new member moves those above it one place on. -/
theorem rank_insert {labels : LabelSet} {label : Label} (fresh : labels.contains label = false)
    {bound : Nat} (inside : bound ≤ 32) :
    (labels.insert label).rank bound = labels.rank bound + if label.val < bound then 1 else 0 := by
  induction bound with
  | zero => rfl
  | succ bound ih =>
      have below : bound < 32 := by omega
      rw [rank, rank, ih (by omega), getLsbD_bits _ below, getLsbD_bits _ below, contains_insert]
      by_cases same : (⟨bound, below⟩ : Label) = label
      · subst same
        simp [fresh]
      · have differ : bound ≠ label.val := fun equal => same (Fin.ext equal)
        have step : label.val < bound + 1 ↔ label.val < bound := by omega
        simp only [same, step, decide_false, Bool.or_false]
        omega

theorem size_insert {labels : LabelSet} {label : Label} (fresh : labels.contains label = false) :
    (labels.insert label).size = labels.size + 1 := by
  have inside : label.val < 32 := label.isLt
  rw [size, rank_insert fresh (Nat.le_refl 32), if_pos inside, size]

/-- A set that lacks some label has at most thirty-one members. -/
theorem size_lt_of_lacking {labels : LabelSet} {label : Label}
    (lacking : labels.contains label = false) : labels.size < 32 := by
  have more := size_insert lacking
  have limit := (labels.insert label).size_le
  omega

theorem contains_erase_self {labels : LabelSet} {label : Label} :
    (labels.erase label).contains label = false := by simp

/-- A member that was taken away comes back. -/
theorem insert_erase {labels : LabelSet} {label : Label} (member : labels.contains label = true) :
    (labels.erase label).insert label = labels := by
  apply ext_contains
  intro other
  by_cases same : other = label
  · simp [same, member]
  · simp [same]

/-- A lost member moves those above it one place back. -/
theorem rank_erase {labels : LabelSet} {label : Label} (member : labels.contains label = true)
    {bound : Nat} (inside : bound ≤ 32) :
    (labels.erase label).rank bound + (if label.val < bound then 1 else 0) = labels.rank bound := by
  have gone : (labels.erase label).contains label = false := contains_erase_self
  have back := rank_insert gone inside
  rw [insert_erase member] at back
  exact back.symm

theorem size_erase {labels : LabelSet} {label : Label} (member : labels.contains label = true) :
    (labels.erase label).size + 1 = labels.size := by
  have step := rank_erase member (Nat.le_refl 32)
  rwa [if_pos label.isLt] at step

/-- Members stand in the order of their labels. -/
theorem rank_lt_rank {labels : LabelSet} {low high : Label} (member : labels.contains low = true)
    (below : low.val < high.val) : labels.rank low.val < labels.rank high.val := by
  have step : labels.rank (low.val + 1) = labels.rank low.val + 1 := by
    rw [rank, getLsbD_bits _ low.isLt, member]
    rfl
  have mono := labels.rank_mono (show low.val + 1 ≤ high.val from below)
  omega

/-- No two members share a place. -/
theorem rank_inj {labels : LabelSet} {first second : Label}
    (inFirst : labels.contains first = true) (inSecond : labels.contains second = true)
    (same : labels.rank first.val = labels.rank second.val) : first = second := by
  apply Fin.ext
  rcases Nat.lt_trichotomy first.val second.val with below | equal | above
  · have apart := rank_lt_rank inFirst below
    omega
  · exact equal
  · have apart := rank_lt_rank inSecond above
    omega

/-- A set of one member has no other. -/
theorem eq_of_single {labels : LabelSet} {first second : Label} (single : labels.size = 1)
    (inFirst : labels.contains first = true) (inSecond : labels.contains second = true) :
    first = second := by
  have placeFirst := rank_lt_size inFirst
  have placeSecond := rank_lt_size inSecond
  exact rank_inj inFirst inSecond (by omega)

/-- Every place in the run is that of a member. -/
theorem exists_rank_eq {labels : LabelSet} {place : Nat} (inside : place < labels.size) :
    ∃ label : Label, labels.contains label = true ∧ labels.rank label.val = place := by
  have scan : ∀ bound ≤ 32, place < labels.rank bound →
      ∃ label : Label, labels.contains label = true ∧ labels.rank label.val = place := by
    intro bound
    induction bound with
    | zero =>
        intro _ below
        exact absurd below (Nat.not_lt_zero _)
    | succ bound ih =>
        intro small below
        by_cases earlier : place < labels.rank bound
        · exact ih (by omega) earlier
        · have bit := Bool.toNat_le (labels.bits.getLsbD bound)
          rw [rank] at below
          have member : labels.bits.getLsbD bound = true := by
            cases set : labels.bits.getLsbD bound with
            | true => rfl
            | false =>
                rw [set, Bool.toNat_false] at below
                omega
          have value : (⟨bound, small⟩ : Label).val = bound := rfl
          refine ⟨⟨bound, small⟩, member, ?_⟩
          rw [value]
          omega
  exact scan 32 (Nat.le_refl 32) inside

theorem rank_singleton (label : Label) {bound : Nat} (inside : bound ≤ 32) :
    (singleton label).rank bound = if label.val < bound then 1 else 0 := by
  have absent : empty.contains label = false := contains_empty label
  have extended : singleton label = empty.insert label := by
    apply ext_contains
    intro other
    simp
  have none : ∀ bound, empty.rank bound = 0 := by
    intro bound
    induction bound with
    | zero => rfl
    | succ bound ih => rw [rank, ih]; simp [empty]
  rw [extended, rank_insert absent inside, none, Nat.zero_add]

@[simp] theorem size_singleton (label : Label) : (singleton label).size = 1 := by
  rw [size, rank_singleton label (Nat.le_refl 32), if_pos label.isLt]

@[simp] theorem rank_singleton_self (label : Label) : (singleton label).rank label.val = 0 := by
  rw [rank_singleton label (Nat.le_of_lt label.isLt), if_neg (Nat.lt_irrefl _)]

@[simp] theorem size_empty : empty.size = 0 := by decide

/-- A set without members is the empty one. -/
theorem size_eq_zero {labels : LabelSet} (none : labels.size = 0) (label : Label) :
    labels.contains label = false := by
  cases member : labels.contains label with
  | false => rfl
  | true =>
      have place := rank_lt_size member
      omega

end LabelSet

end Lexicon

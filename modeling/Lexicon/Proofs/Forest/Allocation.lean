/-
Module: Lexicon.Proofs.Forest.Allocation
Layer: Proofs
Purpose: What taking, giving back, copying and writing runs does to the content of slots and to the
  slots that are still to be had.
Imports: Lexicon.Forest.Arena, Mathlib.Algebra.BigOperators.Group.Finset.Basic,
  Mathlib.Algebra.GroupWithZero.Nat
Trusted boundary: none
Main exports: Arena.available, Arena.Allocates, Arena.Taken, Arena.alloc_taken,
  Arena.available_release, Arena.slot_write, Arena.slot_copy
-/
import Lexicon.Forest.Arena
import Mathlib.Algebra.BigOperators.Group.Finset.Basic
import Mathlib.Algebra.GroupWithZero.Nat

namespace Lexicon

/-!
Who holds a slot is counted rather than said: a run covers a slot once or not at all, and the counts
of all holders are added up.  Slots beyond the end of the arena count as available, like those of
free runs, so that growing the arena and reusing a free run look the same.
-/

/-- How often a run covers a slot: once or never. -/
def covers (offset length index : Nat) : Nat :=
  if offset ≤ index ∧ index < offset + length then 1 else 0

theorem covers_of_mem {offset length index : Nat} (low : offset ≤ index)
    (high : index < offset + length) : covers offset length index = 1 :=
  if_pos ⟨low, high⟩

theorem covers_self (index : Nat) : covers index 1 index = 1 :=
  covers_of_mem (Nat.le_refl _) (Nat.lt_succ_self _)

theorem covers_of_not_mem {offset length index : Nat}
    (outside : index < offset ∨ offset + length ≤ index) : covers offset length index = 0 :=
  if_neg (by omega)

@[simp] theorem covers_zero (offset index : Nat) : covers offset 0 index = 0 :=
  covers_of_not_mem (by omega)

/-- A run is covered by two parts of it that meet. -/
theorem covers_add (offset first second index : Nat) :
    covers offset (first + second) index =
      covers offset first index + covers (offset + first) second index := by
  simp only [covers]
  split <;> split <;> split <;> omega

/-- Sums that differ in one summand differ by it. -/
theorem sum_add_eq_of_differ {ι : Type} [DecidableEq ι] {members : Finset ι} {place : ι}
    (member : place ∈ members) (first second : ι → Nat)
    (same : ∀ other ∈ members, other ≠ place → first other = second other) :
    ∑ other ∈ members, first other + second place =
      ∑ other ∈ members, second other + first place := by
  rw [← Finset.add_sum_erase members first member, ← Finset.add_sum_erase members second member]
  have rest : ∑ other ∈ members.erase place, first other =
      ∑ other ∈ members.erase place, second other := by
    apply Finset.sum_congr rfl
    intro other inside
    exact same other (Finset.mem_of_mem_erase inside) (Finset.ne_of_mem_erase inside)
  omega

namespace Arena

/-- How often the free runs cover a slot. -/
def parked (arena : Arena) (index : Nat) : Nat :=
  ∑ length ∈ Finset.range 33, ((arena.freeRuns length).map (covers · length index)).sum

/-- How often a slot is to be had: it is beyond the end of the arena, or in a free run. -/
def available (arena : Arena) (index : Nat) : Nat :=
  (if index < arena.slots.size then 0 else 1) + arena.parked index

/-- A slot that is not available is inside the arena. -/
theorem lt_size_of_available {arena : Arena} {index : Nat} (taken : arena.available index = 0) :
    index < arena.slots.size := by
  unfold available at taken
  split at taken
  next inside => exact inside
  next => omega

/-! ### Content -/

theorem slot_eq_getElem? (arena : Arena) (index : Nat) :
    arena.slot index = (arena.slots[index]?).getD Slot.empty := by
  simp [slot]

/-- Outside of the arena there are empty nodes only. -/
theorem slot_of_size_le {arena : Arena} {index : Nat} (outside : arena.slots.size ≤ index) :
    arena.slot index = Slot.empty := by
  rw [slot_eq_getElem?, Array.getElem?_eq_none outside]
  rfl

/-- There are entries only inside the arena. -/
theorem lt_size_of_entry {arena : Arena} {index value : Nat} {key : Int32} {nested : Option Nat}
    (here : arena.slot index = .entry key value nested) : index < arena.slots.size := by
  by_contra outside
  cases here.symm.trans (slot_of_size_le (Nat.le_of_not_lt outside))

theorem slot_write {arena : Arena} {index : Nat} (inside : index < arena.slots.size) (slot : Slot)
    (other : Nat) :
    (arena.write index slot).slot other = if other = index then slot else arena.slot other := by
  simp only [slot_eq_getElem?, write, Array.getElem?_setIfInBounds]
  by_cases same : other = index
  · subst same
    simp [inside]
  · simp [same, Ne.symm same]

@[simp] theorem size_write (arena : Arena) (index : Nat) (slot : Slot) :
    (arena.write index slot).slots.size = arena.slots.size := by
  simp [write]

@[simp] theorem available_write (arena : Arena) (index : Nat) (slot : Slot) :
    (arena.write index slot).available = arena.available := by
  funext other
  simp [available, parked, freeRuns, write]

theorem size_copySlots (slots : Array Slot) (source target count : Nat) :
    (copySlots slots source target count).size = slots.size := by
  induction count generalizing slots source target with
  | zero => rfl
  | succ count ih => rw [copySlots, ih, Array.size_setIfInBounds]

@[simp] theorem size_copy (arena : Arena) (source target count : Nat) :
    (arena.copy source target count).slots.size = arena.slots.size :=
  size_copySlots arena.slots source target count

@[simp] theorem available_copy (arena : Arena) (source target count : Nat) :
    (arena.copy source target count).available = arena.available := by
  funext other
  simp [available, parked, freeRuns, copy, size_copySlots]

/-- One slot copied, and then the rest. -/
theorem copy_succ (arena : Arena) (source target count : Nat) :
    arena.copy source target (count + 1) =
      (arena.write target (arena.slot source)).copy (source + 1) (target + 1) count := rfl

/-- A copied run reads as its source did, when it lies before its source or does not meet it. -/
theorem slot_copy {arena : Arena} {source target count : Nat}
    (apart : target ≤ source ∨ source + count ≤ target)
    (inside : target + count ≤ arena.slots.size) (index : Nat) :
    (arena.copy source target count).slot index =
      if target ≤ index ∧ index < target + count then arena.slot (source + (index - target))
      else arena.slot index := by
  induction count generalizing arena source target with
  | zero =>
      rw [if_neg (by omega)]
      rfl
  | succ count ih =>
      have here : target < arena.slots.size := by omega
      rw [copy_succ, ih (by omega) (by rw [size_write]; omega)]
      simp only [slot_write here]
      by_cases first : index = target
      · subst first
        rw [if_neg (by omega), if_pos rfl, if_pos (by omega), Nat.sub_self, Nat.add_zero]
      · by_cases later : target + 1 ≤ index ∧ index < target + 1 + count
        · rw [if_pos later, if_neg (by omega), if_pos (by omega)]
          congr 1
          omega
        · rw [if_neg later, if_neg first, if_neg (by omega)]

/-! ### Taking and giving back -/

theorem freeRuns_setIfInBounds (arena : Arena) {length : Nat} (small : length < 33)
    (runs : List Nat) (other : Nat) :
    { arena with free := arena.free.setIfInBounds length runs }.freeRuns other =
      if other = length then runs else arena.freeRuns other := by
  simp only [freeRuns, Vector.getElem?_setIfInBounds]
  by_cases same : other = length
  · subst same
    simp [small]
  · simp [same, Ne.symm same]

/-- What changes when the free runs of one length change. -/
theorem parked_setIfInBounds (arena : Arena) {length : Nat} (small : length < 33)
    (runs : List Nat) (index : Nat) :
    { arena with free := arena.free.setIfInBounds length runs }.parked index +
        ((arena.freeRuns length).map (covers · length index)).sum =
      arena.parked index + (runs.map (covers · length index)).sum := by
  have change := sum_add_eq_of_differ (Finset.mem_range.mpr small)
    (fun other =>
      (({ arena with free := arena.free.setIfInBounds length runs }.freeRuns other).map
        (covers · other index)).sum)
    (fun other => ((arena.freeRuns other).map (covers · other index)).sum)
    (by
      intro other _ differ
      simp only [freeRuns_setIfInBounds arena small, if_neg differ])
  simpa only [parked, freeRuns_setIfInBounds arena small, if_true] using change

@[simp] theorem slot_release (arena : Arena) (offset length index : Nat) :
    (arena.release offset length).slot index = arena.slot index := rfl

@[simp] theorem size_release (arena : Arena) (offset length : Nat) :
    (arena.release offset length).slots.size = arena.slots.size := rfl

/-- A run given back is available again. -/
theorem available_release (arena : Arena) (offset : Nat) {length : Nat} (small : length < 33)
    (index : Nat) :
    (arena.release offset length).available index =
      arena.available index + covers offset length index := by
  have change : (arena.release offset length).parked index + _ = _ :=
    arena.parked_setIfInBounds small (offset :: arena.freeRuns length) index
  rw [List.map_cons, List.sum_cons] at change
  rw [available, available, size_release]
  omega

/-- What asking for a run comes to: the latest free run of its length is used again, or new slots are
added at the end, or the arena would outgrow its largest size and stays as it is. -/
inductive Allocates (arena : Arena) (length : Nat) : Option Nat → Arena → Prop
  | reused {first : Nat} {others : List Nat} (runs : arena.freeRuns length = first :: others) :
      Allocates arena length (some first)
        { arena with free := arena.free.setIfInBounds length others }
  | extended (nothing : arena.freeRuns length = []) (room : arena.slots.size + length ≤ maxSlots) :
      Allocates arena length (some arena.slots.size)
        { arena with slots := arena.slots ++ Array.replicate length Slot.empty }
  | refused (nothing : arena.freeRuns length = []) (short : maxSlots < arena.slots.size + length) :
      Allocates arena length none arena

theorem allocates_of_alloc {arena next : Arena} {length : Nat} {answer : Option Nat}
    (allocated : arena.alloc length = (answer, next)) : arena.Allocates length answer next := by
  unfold alloc at allocated
  split at allocated
  next first others runs =>
    cases allocated
    exact .reused runs
  next nothing =>
    dsimp only at allocated
    split at allocated
    next room =>
      cases allocated
      exact .extended nothing room
    next short =>
      cases allocated
      exact .refused nothing (Nat.lt_of_not_le short)

theorem Allocates.alloc_eq {arena next : Arena} {length : Nat} {answer : Option Nat}
    (allocates : arena.Allocates length answer next) : arena.alloc length = (answer, next) := by
  cases allocates with
  | reused runs => simp [alloc, runs]
  | extended nothing room => simp [alloc, nothing, room]
  | refused nothing short => simp [alloc, nothing, Nat.not_le.mpr short]

/-- What a run taken from an arena leaves behind: the same content, and one run less to be had. -/
structure Taken (arena : Arena) (length offset : Nat) (next : Arena) : Prop where
  available : ∀ index, arena.available index = next.available index + covers offset length index
  content : ∀ index, next.slot index = arena.slot index
  grows : arena.slots.size ≤ next.slots.size
  growth : next.slots.size ≤ arena.slots.size + length
  bounded : arena.slots.size ≤ maxSlots → next.slots.size ≤ maxSlots

/-- A run is taken from the free runs of its length or from beyond the end of the arena. -/
theorem alloc_taken {arena next : Arena} {length offset : Nat} (small : length < 33)
    (allocated : arena.alloc length = (some offset, next)) : Taken arena length offset next := by
  cases allocates_of_alloc allocated with
  | @reused _ others runs =>
      refine ⟨fun index => ?_, fun _ => rfl, Nat.le_refl _, Nat.le_add_right _ _, id⟩
      have change := arena.parked_setIfInBounds small others index
      rw [runs, List.map_cons, List.sum_cons] at change
      simp only [Arena.available]
      omega
  | extended _ room =>
      refine ⟨fun index => ?_, fun index => ?_, by simp, by simp, fun _ => by simpa using room⟩
      · simp only [Arena.available, parked, freeRuns, Array.size_append, Array.size_replicate, covers]
        split <;> split <;> split <;> omega
      · simp only [slot_eq_getElem?, Array.getElem?_append, Array.getElem?_replicate]
        by_cases inside : index < arena.slots.size
        · simp [inside]
        · have outside : arena.slots[index]? = none := by simpa using inside
          rw [if_neg inside, outside]
          split <;> rfl

/-- A run is refused only where the arena would outgrow its largest size, and nothing changes. -/
theorem alloc_none {arena next : Arena} {length : Nat}
    (refused : arena.alloc length = (none, next)) :
    next = arena ∧ maxSlots < arena.slots.size + length := by
  cases allocates_of_alloc refused with
  | refused _ short => exact ⟨rfl, short⟩

theorem freeRuns_ofSlots (slots : Array Slot) (length : Nat) :
    (ofSlots slots).freeRuns length = [] := by
  simp only [ofSlots, freeRuns, Vector.getElem?_replicate]
  split <;> rfl

/-- Nothing is parked where all slots are in use. -/
theorem parked_ofSlots (slots : Array Slot) (index : Nat) : (ofSlots slots).parked index = 0 := by
  apply Finset.sum_eq_zero
  intro length _
  rw [freeRuns_ofSlots]
  rfl

end Arena

end Lexicon

/-
Module: Lexicon.Proofs.Forest.Tidiness
Layer: Proofs
Purpose: What holds of every slot of an arena, also of those that are free or that no table leads to
  any more: whatever a slot refers to is there.
Imports: Lexicon.Proofs.Forest.Allocation, Lexicon.Proofs.Forest.Descent,
  Lexicon.Proofs.Forest.Label
Trusted boundary: none
Main exports: Slot.Fits, Arena.Tidy, Arena.Grows, Forest.tidy_put, Forest.tidy_erase,
  Forest.tidy_createNested, Forest.slotCount_le_put
-/
import Lexicon.Proofs.Forest.Allocation
import Lexicon.Proofs.Forest.Descent
import Lexicon.Proofs.Forest.Label

namespace Lexicon

/-!
A run that is given back keeps its content, and so does a table whose entry was erased.  When the
forest is stored, all these slots are stored with it, and they are checked when it is read back.  So
they have to be accounted for too.  Nothing has to be known about trees for this: slots are only ever
copied, or written with references to what was just taken from the arena.
-/

/-- Whether what a slot refers to is there: the children of a node in an arena of the given size,
the table nested below an entry among the given ones. -/
def Slot.Fits (size : Nat) (tables : Finset Table) : Slot → Prop
  | .node labels run spare =>
      spare < Slot.entryMark ∧ (labels.size = 0 ∨ run + labels.size ≤ size)
  | .entry _ _ nested => ∀ table, nested = some table → (⟨table⟩ : Table) ∈ tables

/-- Every slot of an arena refers to what is there, and the free runs lie inside the arena. -/
structure Arena.Tidy (arena : Arena) (tables : Finset Table) : Prop where
  fits : ∀ index, (arena.slot index).Fits arena.slots.size tables
  parked : ∀ length, ∀ run ∈ arena.freeRuns length, run + length ≤ arena.slots.size

namespace Slot.Fits

variable {size larger : Nat} {tables others : Finset Table} {slot : Slot}

theorem mono (fits : slot.Fits size tables) (least : size ≤ larger) (among : tables ⊆ others) :
    slot.Fits larger others := by
  cases slot with
  | node labels run spare => exact ⟨fits.1, fits.2.imp_right (Nat.le_trans · least)⟩
  | entry key value nested => exact fun table same => among (fits table same)

/-- A new node fits when its run does. -/
theorem node {labels : LabelSet} {run : Nat} (inside : labels.size = 0 ∨ run + labels.size ≤ size) :
    (Slot.node labels run 0).Fits size tables :=
  ⟨by decide, inside⟩

theorem empty : Slot.empty.Fits size tables := node (Or.inl LabelSet.size_empty)

/-- A run of a node that fits lies inside the arena, if there is any. -/
theorem run_le (fits : slot.Fits size tables) :
    slot.labels.size = 0 ∨ slot.run + slot.labels.size ≤ size := by
  cases slot with
  | node => exact fits.2
  | entry => exact Or.inl LabelSet.size_empty

end Slot.Fits

namespace Arena

/-! ### Single steps -/

theorem slot_write_or (arena : Arena) (index : Nat) (slot : Slot) (other : Nat) :
    (arena.write index slot).slot other = slot ∨
      (arena.write index slot).slot other = arena.slot other := by
  simp only [slot_eq_getElem?, write, Array.getElem?_setIfInBounds]
  split
  next same =>
    subst same
    split
    next => exact Or.inl rfl
    next outside =>
      right
      rw [Array.getElem?_eq_none (Nat.le_of_not_lt outside)]
  next => exact Or.inr rfl

/-- What stands in a slot after copying stood in some slot before. -/
theorem exists_slot_copy (arena : Arena) (source target count index : Nat) :
    ∃ other, (arena.copy source target count).slot index = arena.slot other := by
  induction count generalizing arena source target with
  | zero => exact ⟨index, rfl⟩
  | succ count ih =>
      rw [copy_succ]
      obtain ⟨other, same⟩ := ih (arena.write target (arena.slot source)) (source + 1) (target + 1)
      rw [same]
      rcases arena.slot_write_or target (arena.slot source) other with copied | kept
      · exact ⟨source, copied⟩
      · exact ⟨other, kept⟩

/-- Only the free runs of one length change, if there are free runs of that length at all. -/
theorem mem_freeRuns_setIfInBounds {arena : Arena} {length : Nat} {runs : List Nat} {other run : Nat}
    (among : run ∈ { arena with free := arena.free.setIfInBounds length runs }.freeRuns other) :
    other = length ∧ run ∈ runs ∨ run ∈ arena.freeRuns other := by
  simp only [freeRuns, Vector.getElem?_setIfInBounds] at among ⊢
  split at among
  next same =>
    split at among
    next => exact Or.inl ⟨same.symm, among⟩
    next => cases among
  next => exact Or.inr among

namespace Tidy

variable {arena next : Arena} {tables : Finset Table}

theorem mono {others : Finset Table} (tidy : arena.Tidy tables) (among : tables ⊆ others) :
    arena.Tidy others :=
  ⟨fun index => (tidy.fits index).mono (Nat.le_refl _) among, tidy.parked⟩

theorem write (tidy : arena.Tidy tables) (index : Nat) {slot : Slot}
    (fits : slot.Fits arena.slots.size tables) : (arena.write index slot).Tidy tables := by
  refine ⟨?_, ?_⟩
  · intro other
    rw [size_write]
    rcases arena.slot_write_or index slot other with new | kept
    · rw [new]
      exact fits
    · rw [kept]
      exact tidy.fits other
  · rw [size_write]
    exact tidy.parked

theorem copy (tidy : arena.Tidy tables) (source target count : Nat) :
    (arena.copy source target count).Tidy tables := by
  refine ⟨?_, ?_⟩
  · intro index
    rw [size_copy]
    obtain ⟨other, same⟩ := arena.exists_slot_copy source target count index
    exact same ▸ tidy.fits other
  · rw [size_copy]
    exact tidy.parked

theorem release (tidy : arena.Tidy tables) {offset length : Nat}
    (inside : offset + length ≤ arena.slots.size) : (arena.release offset length).Tidy tables := by
  refine ⟨tidy.fits, ?_⟩
  intro other run among
  rcases mem_freeRuns_setIfInBounds among with ⟨rfl, among⟩ | among
  · rcases List.mem_cons.mp among with rfl | among
    · exact inside
    · exact tidy.parked _ _ among
  · exact tidy.parked _ _ among

/-- An entry refers to the same wherever it is written to, and whatever its value is. -/
theorem fits_of_entry (tidy : arena.Tidy tables) {index old : Nat} {key : Int32}
    {nested : Option Nat} (here : arena.slot index = .entry key old nested) (value size : Nat) :
    (Slot.entry key value nested).Fits size tables := by
  have fits := tidy.fits index
  rw [here] at fits
  exact fits

/-- A run that was taken lies inside the arena. -/
theorem alloc (tidy : arena.Tidy tables) {length : Nat} {answer : Option Nat}
    (allocated : arena.alloc length = (answer, next)) :
    next.Tidy tables ∧ arena.slots.size ≤ next.slots.size ∧
      ∀ offset, answer = some offset → offset + length ≤ next.slots.size := by
  cases allocates_of_alloc allocated with
  | @reused first further runs =>
      refine ⟨⟨tidy.fits, ?_⟩, Nat.le_refl _, ?_⟩
      · intro other run among
        rcases mem_freeRuns_setIfInBounds among with ⟨rfl, behind⟩ | among
        · exact tidy.parked _ _ (runs ▸ List.mem_cons_of_mem first behind)
        · exact tidy.parked _ _ among
      · rintro _ ⟨⟩
        exact tidy.parked _ _ (runs ▸ List.mem_cons_self)
  | extended =>
      have grown : arena.slots.size ≤ arena.slots.size + length := Nat.le_add_right _ _
      refine ⟨⟨?_, ?_⟩, ?_, ?_⟩
      · intro index
        simp only [slot_eq_getElem?, Array.getElem?_append, Array.getElem?_replicate,
          Array.size_append, Array.size_replicate]
        split
        next => exact slot_eq_getElem? arena index ▸ (tidy.fits index).mono grown subset_rfl
        next => split <;> exact Slot.Fits.empty
      · intro other run among
        simp only [Array.size_append, Array.size_replicate]
        exact Nat.le_trans (tidy.parked other run among) grown
      · simp
      · rintro _ ⟨⟩
        simp
  | refused => exact ⟨tidy, Nat.le_refl _, nofun⟩

/-- An arena keeps its order when its free runs are forgotten. -/
theorem copied (tidy : arena.Tidy tables) : (Arena.ofSlots arena.slots).Tidy tables := by
  refine ⟨tidy.fits, ?_⟩
  intro length run among
  rw [freeRuns_ofSlots] at among
  cases among

/-! ### Nodes -/

theorem insertChild (tidy : arena.Tidy tables) {node : Nat} {label : Label} {child : Slot}
    {done : Bool} (fresh : (arena.slot node).labels.contains label = false)
    (fits : ∀ size, child.Fits size tables)
    (inserted : arena.insertChild node label child = (done, next)) : next.Tidy tables := by
  have old := (tidy.fits node).run_le
  simp only [Arena.insertChild] at inserted
  generalize arena.slot node = parent at *
  split at inserted
  next middle allocated =>
    cases inserted
    exact (tidy.alloc allocated).1
  next run middle allocated =>
    cases inserted
    obtain ⟨tidyMiddle, grown, inside⟩ := tidy.alloc allocated
    have room := inside run rfl
    have moved := ((tidyMiddle.copy parent.run run (parent.labels.rank label.val)).write
      (run + parent.labels.rank label.val) (fits _)).copy (parent.run + parent.labels.rank label.val)
      (run + parent.labels.rank label.val + 1)
      (parent.labels.size - parent.labels.rank label.val)
    have placed : run + (parent.labels.insert label).size ≤ middle.slots.size := by
      rw [LabelSet.size_insert fresh]
      exact room
    split
    next =>
      refine moved.write _ (Slot.Fits.node (Or.inr ?_))
      simpa using placed
    next occupied =>
      have last : parent.run + parent.labels.size ≤ middle.slots.size := by omega
      refine (moved.release (by simpa using last)).write _ (Slot.Fits.node (Or.inr ?_))
      simpa using placed

theorem eraseChild (tidy : arena.Tidy tables) {node : Nat} {label : Label}
    (member : (arena.slot node).labels.contains label = true) :
    (arena.eraseChild node label).Tidy tables := by
  have old := (tidy.fits node).run_le
  have shorter := LabelSet.size_erase member
  simp only [Arena.eraseChild]
  generalize arena.slot node = parent at *
  split
  next single => exact (tidy.release (by omega)).write _ Slot.Fits.empty
  next =>
    refine ((tidy.copy _ _ _).release ?_).write _ (Slot.Fits.node (Or.inr ?_))
    · rw [size_copy]
      omega
    · rw [size_release, size_copy]
      omega

theorem pushDown (tidy : arena.Tidy tables) {index level : Nat} {key : Int32} {entry : Slot}
    {done : Bool} (fits : ∀ size, entry.Fits size tables)
    (pushed : arena.pushDown index level key entry = (done, next)) : next.Tidy tables := by
  unfold Arena.pushDown at pushed
  split at pushed
  next middle allocated =>
    cases pushed
    exact (tidy.alloc allocated).1
  next run middle allocated =>
    cases pushed
    obtain ⟨tidyMiddle, _, inside⟩ := tidy.alloc allocated
    refine (tidyMiddle.write run (fits _)).write index (Slot.Fits.node (Or.inr ?_))
    rw [size_write, LabelSet.size_singleton]
    exact inside run rfl

end Tidy

/-! ### Growing -/

/-- An arena becomes no smaller, and larger by so many slots at most. -/
structure Grows (before after : Arena) (most : Nat) : Prop where
  least : before.slots.size ≤ after.slots.size
  most : after.slots.size ≤ before.slots.size + most

section Growing

variable {arena next : Arena} {node length level : Nat} {label : Label} {child : Slot} {done : Bool}

theorem grows_alloc {answer : Option Nat} (allocated : arena.alloc length = (answer, next)) :
    arena.Grows next length := by
  cases allocates_of_alloc allocated with
  | reused => exact ⟨Nat.le_refl _, Nat.le_add_right _ _⟩
  | extended => constructor <;> simp
  | refused => exact ⟨Nat.le_refl _, Nat.le_add_right _ _⟩

/-- A node that gets a child takes a run for all its children. -/
theorem grows_insertChild (insertion : arena.insertChild node label child = (done, next)) :
    arena.Grows next ((arena.slot node).labels.size + 1) := by
  simp only [insertChild] at insertion
  split at insertion
  next allocated =>
    cases insertion
    exact grows_alloc allocated
  next allocated =>
    cases insertion
    obtain ⟨least, most⟩ := grows_alloc allocated
    constructor
    · split <;> simpa using least
    · split <;> simpa using most

/-- An entry that is pushed down takes a run of one. -/
theorem grows_pushDown {key : Int32} (pushing : arena.pushDown node level key child = (done, next)) :
    arena.Grows next 1 := by
  unfold pushDown at pushing
  split at pushing
  next allocated =>
    cases pushing
    exact grows_alloc allocated
  next allocated =>
    cases pushing
    obtain ⟨least, most⟩ := grows_alloc allocated
    exact ⟨by simpa using least, by simpa using most⟩

end Growing

end Arena

/-! ### Operations -/

namespace Forest

variable {forest after : Forest} {tables : Finset Table} {table : Table} {key : Int32}

/-- The entry that is found for a key is a child of its parent. -/
theorem Finds.contains {arena : Arena} {remaining level node : Nat} {place : Place}
    (finds : Finds arena key remaining level node place) :
    (arena.slot place.parent).labels.contains (Label.ofKey key place.level) = true := by
  induction finds with
  | here step => exact step.member
  | descended _ _ _ ih => exact ih

/-- Storing a value leaves an arena tidy, whatever comes of it. -/
theorem Stores.tidy {value remaining level node : Nat} {answer : Except Error Unit}
    (stores : Stores key value remaining level node forest answer after)
    (tidy : forest.arena.Tidy tables) : after.arena.Tidy tables := by
  have unlinked : ∀ size, (Slot.entry key value none).Fits size tables := fun _ _ => nofun
  induction stores with
  | bottom => exact tidy
  | refused missing insertion => exact tidy.insertChild missing unlinked insertion
  | inserted missing insertion => exact tidy.insertChild missing unlinked insertion
  | replaced _ here => exact tidy.write _ (tidy.fits_of_entry here _ _)
  | clashed => exact tidy
  | blocked _ here _ pushing => exact tidy.pushDown (tidy.fits_of_entry here _) pushing
  | pushed _ here _ pushing _ ih => exact ih (tidy.pushDown (tidy.fits_of_entry here _) pushing)
  | descended _ _ _ ih => exact ih tidy

theorem tidy_put (tidy : forest.arena.Tidy tables) (table : Table) (key : Int32) (value : Nat) :
    (forest.put table key value).2.arena.Tidy tables := by
  rcases Nat.lt_or_ge maxValue value with wide | fits
  · rw [put_of_gt wide]
    exact tidy
  · exact (stores_put forest table key fits).tidy tidy

theorem tidy_erase (tidy : forest.arena.Tidy tables) (table : Table) (key : Int32) :
    (forest.erase table key).2.arena.Tidy tables := by
  cases located : forest.locate table key with
  | none =>
      rw [erase_of_nowhere located]
      exact tidy
  | some place =>
      rw [erase_of_located located]
      exact tidy.eraseChild (finds_of_locateFrom levels located).contains

/-- A new table is one more that entries may refer to. -/
theorem tidy_createNested (tidy : forest.arena.Tidy tables) (table : Table) (key : Int32) :
    (forest.createNested? table key).2.arena.Tidy
      (match (forest.createNested? table key).1 with
        | none => tables
        | some fresh => insert fresh tables) := by
  obtain ⟨answer, after, created, nests⟩ := exists_nests forest table key
  rw [created]
  cases nests with
  | lacking => exact tidy
  | known => exact tidy.mono (Finset.subset_insert _ _)
  | refused _ _ allocation => exact (tidy.alloc allocation).1
  | @founded _ _ _ _ offset place _ _ allocation =>
      have wide := (tidy.alloc allocation).1.mono (Finset.subset_insert ⟨offset⟩ tables)
      refine (wide.write offset Slot.Fits.empty).write place.slot ?_
      rintro _ ⟨⟩
      exact Finset.mem_insert_self _ _

theorem tidy_new : new.arena.Tidy {root} := by
  refine ⟨?_, ?_⟩
  · intro index
    have empty : new.arena.slot index = Slot.empty := by
      cases index with
      | zero => rfl
      | succ index => rfl
    rw [empty]
    exact Slot.Fits.empty
  · intro length run among
    rw [new, Arena.new, Arena.freeRuns_ofSlots] at among
    cases among

/-! ### Sizes -/

theorem Stores.slotCount_le {value remaining level node : Nat} {answer : Except Error Unit}
    (stores : Stores key value remaining level node forest answer after) :
    forest.slotCount ≤ after.slotCount := by
  induction stores with
  | bottom => exact Nat.le_refl _
  | refused _ insertion => exact (Arena.grows_insertChild insertion).least
  | inserted _ insertion => exact (Arena.grows_insertChild insertion).least
  | replaced => simp [slotCount]
  | clashed => exact Nat.le_refl _
  | blocked _ _ _ pushing => exact (Arena.grows_pushDown pushing).least
  | pushed _ _ _ pushing _ ih => exact Nat.le_trans (Arena.grows_pushDown pushing).least ih
  | descended _ _ _ ih => exact ih

theorem slotCount_le_put (forest : Forest) (table : Table) (key : Int32) (value : Nat) :
    forest.slotCount ≤ (forest.put table key value).2.slotCount := by
  rcases Nat.lt_or_ge maxValue value with wide | fits
  · rw [put_of_gt wide]
  · exact (stores_put forest table key fits).slotCount_le

theorem slotCount_erase (forest : Forest) (table : Table) (key : Int32) :
    (forest.erase table key).2.slotCount = forest.slotCount := by
  cases located : forest.locate table key with
  | none => rw [erase_of_nowhere located]
  | some place =>
      rw [erase_of_located located]
      simp only [slotCount, Arena.eraseChild]
      split <;> simp

/-- Creating a table makes a forest larger by at most one slot. -/
theorem slotCount_createNested (forest : Forest) (table : Table) (key : Int32) :
    forest.slotCount ≤ (forest.createNested? table key).2.slotCount ∧
      (forest.createNested? table key).2.slotCount ≤ forest.slotCount + 1 := by
  obtain ⟨answer, after, created, nests⟩ := exists_nests forest table key
  rw [created]
  cases nests with
  | lacking => exact ⟨Nat.le_refl _, Nat.le_succ _⟩
  | known => exact ⟨Nat.le_refl _, Nat.le_succ _⟩
  | refused _ _ allocation =>
      have grows := Arena.grows_alloc allocation
      exact ⟨grows.least, grows.most⟩
  | founded _ _ allocation =>
      have grows := Arena.grows_alloc allocation
      simpa only [slotCount, Arena.size_write] using And.intro grows.least grows.most

end Forest

end Lexicon

/-
Module: Lexicon.Proofs.Forest.Storability
Layer: Proofs
Purpose: A forest that was put together by the operations can be stored and read back, and is such a
  forest again, without free runs.
Imports: Lexicon.Proofs.Forest.Storage, Lexicon.Proofs.Forest.Survey
Trusted boundary: none
Main exports: Forest.keys, Forest.Storable, Forest.Storable.put, Forest.Storable.erase,
  Forest.Storable.createNested, Forest.Storable.takes_read, Forest.Storable.copy
-/
import Lexicon.Proofs.Forest.Storage
import Lexicon.Proofs.Forest.Survey

namespace Lexicon

namespace Forest

variable {loose : Prop} {forest other : Forest} {tables : Finset Table} {table : Table}

/-! ### Forests without free runs -/

/-- What stands in the slots is all that is said about keys. -/
theorem locateFrom_congr {arena other : Arena} (same : ∀ index, other.slot index = arena.slot index)
    (key : Int32) (remaining : Nat) : ∀ level node,
      locateFrom other key remaining level node = locateFrom arena key remaining level node := by
  induction remaining with
  | zero => exact fun _ _ => rfl
  | succ remaining ih =>
      intro level node
      simp only [locateFrom, same, ih]

theorem under?_copy (copied : other.arena = Arena.ofSlots forest.arena.slots) (table : Table)
    (key : Int32) : other.under? table key = forest.under? table key := by
  have same : ∀ index, other.arena.slot index = forest.arena.slot index := by
    intro index
    rw [copied]
    rfl
  simp only [under?, locate, locateFrom_congr same, same]

/-- What was free counts as used in a copy, and the tables stand in it as before. -/
theorem Standing.copy {arena : Arena} {tree : Table → Tree}
    (laid : Standing loose arena tables tree) :
    Standing loose (Arena.ofSlots arena.slots) tables tree := by
  refine ⟨laid.node, laid.held, laid.filed, ?_, laid.sane.bounded, laid.sane.storable⟩
  intro index
  have sole := laid.sole index
  have size : (Arena.ofSlots arena.slots).slots.size = arena.slots.size := rfl
  simp only [Arena.available] at sole ⊢
  rw [Arena.parked_ofSlots, size]
  omega

/-- The copy of a coherent forest is coherent. -/
theorem Coherent.copy (sound : Coherent loose forest tables)
    (copied : other.arena = Arena.ofSlots forest.arena.slots) : Coherent loose other tables := by
  obtain ⟨tree, laid⟩ := sound.laid
  refine ⟨⟨tree, copied ▸ laid.copy⟩, sound.rooted, ?_, ?_⟩
  · intro table member key value nested has
    rw [under?_copy copied] at has
    exact sound.linked member has
  · intro first second inFirst inSecond key other value further nested hasFirst hasSecond
    rw [under?_copy copied] at hasFirst hasSecond
    exact sound.owned inFirst inSecond hasFirst hasSecond

theorem slotCount_copy (copied : other.arena = Arena.ofSlots forest.arena.slots) :
    other.slotCount = forest.slotCount := by
  rw [slotCount, copied]
  rfl

/-! ### Counting entries -/

/-- The keys of a table. -/
def keys (forest : Forest) (table : Table) : Finset Int32 :=
  ((forest.entries table).map (·.key)).toFinset

theorem mem_keys (sound : Sound forest tables) (member : table ∈ tables) (key : Int32) :
    key ∈ forest.keys table ↔ (forest.under? table key).isSome = true := by
  rw [keys, List.mem_toFinset, mem_entries_keys sound member]

/-- Tables with the same keys have as many. -/
theorem keys_eq {otherTables : Finset Table} {otherTable : Table} (sound : Sound forest tables)
    (member : table ∈ tables) (soundOther : Sound other otherTables)
    (memberOther : otherTable ∈ otherTables)
    (same : ∀ key, (other.under? otherTable key).isSome = (forest.under? table key).isSome) :
    other.keys otherTable = forest.keys table := by
  ext key
  rw [mem_keys sound member, mem_keys soundOther memberOther, same]

/-- There are no more keys than patterns of 32 bits. -/
theorem card_keys_le (forest : Forest) (table : Table) :
    (forest.keys table).card ≤ LittleEndian.span 4 := by
  have patterns := Finset.card_le_card_of_injOn (s := forest.keys table)
    (t := Finset.range (LittleEndian.span 4)) (fun key => key.toUInt32.toNat)
    (fun key _ => Finset.mem_coe.mpr (Finset.mem_range.mpr key.toUInt32.toNat_lt))
    (fun first _ second _ same =>
      congrArg UInt32.toInt32 (UInt32.toNat_inj.mp same : first.toUInt32 = second.toUInt32))
  rwa [Finset.card_range] at patterns

theorem card_erase_add (keys : Finset Int32) (key : Int32) :
    (keys.erase key).card + (if key ∈ keys then 1 else 0) = keys.card := by
  split
  next among => exact Finset.card_erase_add_one among
  next outside => rw [Finset.erase_eq_of_notMem outside, Nat.add_zero]

/-- Where one key of one table has something new under it, the number of entries changes by that of
the one key. -/
theorem Amended.card_keys {after : Forest} {key : Int32} {answer : Option (Nat × Option Table)}
    (edited : Edited forest after tables table key answer) (sound : Sound forest tables)
    (member : table ∈ tables) :
    ∑ other ∈ tables, (after.keys other).card +
        (if (forest.under? table key).isSome then 1 else 0) =
      ∑ other ∈ tables, (forest.keys other).card + if answer.isSome then 1 else 0 := by
  have change := sum_add_eq_of_differ member (fun other => (after.keys other).card)
    (fun other => (forest.keys other).card) (by
      intro other among differ
      rw [keys_eq sound among edited.sound among]
      intro name
      rw [edited.entry other among, if_neg fun both => differ both.1])
  have here : (after.keys table).card + (if (forest.under? table key).isSome then 1 else 0) =
      (forest.keys table).card + if answer.isSome then 1 else 0 := by
    have known := mem_keys sound member key
    have others : ∀ name, name ≠ key →
        (name ∈ after.keys table ↔ name ∈ forest.keys table) := by
      intro name differ
      rw [mem_keys edited.sound member, mem_keys sound member, edited.entry table member,
        if_neg fun both => differ both.2]
    have told : key ∈ after.keys table ↔ answer.isSome = true := by
      rw [mem_keys edited.sound member, edited.entry table member, if_pos ⟨rfl, rfl⟩]
    -- apart from the one key, the keys are the same
    have rest : (after.keys table).erase key = (forest.keys table).erase key := by
      ext name
      by_cases same : name = key
      · simp [same]
      · simp [same, others name same]
    have sizeAfter := card_erase_add (after.keys table) key
    have size := card_erase_add (forest.keys table) key
    rw [rest] at sizeAfter
    simp only [told] at sizeAfter
    simp only [known] at size
    omega
  omega

/-! ### Forests that can be stored -/

/-- A forest as the operations leave it: its tables stand in it, every slot refers to what is there,
and it counts its entries. -/
structure Storable (forest : Forest) (tables : Finset Table) : Prop where
  sound : Sound forest tables
  tidy : forest.arena.Tidy tables
  counted : forest.count = ∑ table ∈ tables, (forest.keys table).card

theorem storable_new : Storable new {root} := by
  refine ⟨sound_new.1, tidy_new, ?_⟩
  have none : new.keys root = ∅ := by
    ext key
    rw [mem_keys sound_new.1 (Finset.mem_singleton_self root), sound_new.2]
    simp
  rw [Finset.sum_singleton, none]
  rfl

namespace Storable

/-- Storing a value leaves such a forest, also when the value is refused. -/
theorem put (storable : Storable forest tables) (member : table ∈ tables) (key : Int32)
    (value : Nat) : Storable (forest.put table key value).2 tables := by
  have tidy := tidy_put storable.tidy table key value
  have counted := storable.counted
  by_cases wide : maxValue < value
  · rw [put_of_gt wide]
    exact storable
  · obtain ⟨answer, after, outcome, _, stored | full⟩ :=
      put_spec storable.sound member key (Nat.le_of_not_lt wide)
    · obtain ⟨_, edited, count⟩ := stored
      have sizes := edited.card_keys storable.sound member
      rw [outcome] at tidy ⊢
      refine ⟨edited.sound, tidy, ?_⟩
      show after.count = ∑ table ∈ tables, (after.keys table).card
      rw [Option.isSome_some, if_pos rfl] at sizes
      cases known : (forest.under? table key).isSome with
      | true =>
          rw [known, if_pos rfl] at sizes count
          omega
      | false =>
          rw [known, if_neg Bool.false_ne_true] at sizes count
          omega
    · obtain ⟨_, _, edited, count⟩ := full
      have sizes := edited.card_keys storable.sound member
      rw [outcome] at tidy ⊢
      refine ⟨edited.sound, tidy, ?_⟩
      show after.count = ∑ table ∈ tables, (after.keys table).card
      omega

theorem erase (storable : Storable forest tables) (member : table ∈ tables) (key : Int32) :
    Storable (forest.erase table key).2 tables := by
  have tidy := tidy_erase storable.tidy table key
  have counted := storable.counted
  obtain ⟨after, outcome, edited, _, count⟩ := erase_spec storable.sound member key
  have sizes := edited.card_keys storable.sound member
  rw [outcome] at tidy ⊢
  refine ⟨edited.sound, tidy, ?_⟩
  rw [Option.isSome_none, if_neg Bool.false_ne_true] at sizes
  show after.count = ∑ table ∈ tables, (after.keys table).card
  omega

/-- A table that is created is one of the tables from then on. -/
theorem createNested (storable : Storable forest tables) (member : table ∈ tables) (key : Int32) :
    Storable (forest.createNested? table key).2
      (match (forest.createNested? table key).1 with
        | none => tables
        | some fresh => insert fresh tables) := by
  have tidy := tidy_createNested storable.tidy table key
  have spec := createNested_spec storable.sound member key
  match has : forest.under? table key, spec with
  | none, spec =>
      rw [spec]
      exact storable
  | some (value, some nested), spec =>
      rw [spec]
      have known := (storable.sound.linked member has).1
      simp only [Finset.insert_eq_of_mem known]
      exact storable
  | some (value, none), .inl ⟨refused, _⟩ =>
      rw [refused]
      exact storable
  | some (value, none), .inr ⟨fresh, after, created, nested⟩ =>
      rw [created] at tidy ⊢
      refine ⟨nested.sound, tidy, ?_⟩
      have empty : after.keys fresh = ∅ := by
        ext name
        rw [mem_keys nested.sound (Finset.mem_insert_self _ _), nested.empty]
        simp
      have kept : ∀ other ∈ tables, after.keys other = forest.keys other := by
        intro other among
        refine keys_eq storable.sound among nested.sound (Finset.mem_insert_of_mem among) ?_
        intro name
        rw [nested.entry other among]
        split
        next here => rw [here.1, here.2, has]; rfl
        next => rfl
      rw [Finset.sum_insert nested.unknown, empty, Finset.card_empty, Nat.zero_add, nested.count,
        storable.counted]
      exact Finset.sum_congr rfl fun other among => by rw [kept other among]

/-- There are fewer entries than a stored count can say. -/
theorem count_lt (storable : Storable forest tables) : forest.count < LittleEndian.span 8 := by
  obtain ⟨tree, laid⟩ := storable.sound.laid
  have few : tables.card ≤ forest.arena.slots.size := by
    have slots := Finset.card_le_card_of_injOn (s := tables)
      (t := Finset.range forest.arena.slots.size) Table.slot
      (fun table member =>
        Finset.mem_coe.mpr (Finset.mem_range.mpr (laid.stands member).apart.lt_size))
      (fun first _ second _ same => by cases first; cases second; cases same; rfl)
    rwa [Finset.card_range] at slots
  have bounded := laid.sane.bounded
  have limit : maxSlots * LittleEndian.span 4 < LittleEndian.span 8 := by decide
  calc
    forest.count = ∑ table ∈ tables, (forest.keys table).card := storable.counted
    _ ≤ ∑ _table ∈ tables, LittleEndian.span 4 :=
        Finset.sum_le_sum fun table _ => forest.card_keys_le table
    _ = tables.card * LittleEndian.span 4 := Finset.sum_const_nat fun _ _ => rfl
    _ ≤ maxSlots * LittleEndian.span 4 := Nat.mul_le_mul_right _ (Nat.le_trans few bounded)
    _ < LittleEndian.span 8 := limit

/-- Such a forest is read back from its bytes, but for its free runs. -/
theorem takes_read (storable : Storable forest tables) :
    CheckedReader.Takes read forest.encode forest.reloaded := by
  obtain ⟨tree, laid⟩ := storable.sound.laid
  have inside := (laid.stands storable.sound.rooted).apart.lt_size
  exact Forest.takes_read laid.sane (Nat.ne_of_gt (Nat.lt_of_le_of_lt (Nat.zero_le _) inside))
    storable.count_lt (checkSlots_eq_ok storable.sound storable.tidy)
    (checkReachable_eq_ok storable.sound)

/-- What is read back can be stored again. -/
theorem copy (storable : Storable forest tables)
    (copied : other.arena = Arena.ofSlots forest.arena.slots) (count : other.count = forest.count) :
    Storable other tables := by
  have sound := storable.sound.copy copied
  refine ⟨sound, ?_, ?_⟩
  · rw [copied]
    exact storable.tidy.copied
  · rw [count, storable.counted]
    apply Finset.sum_congr rfl
    intro table member
    rw [keys_eq storable.sound member sound member fun key => by rw [under?_copy copied]]

end Storable

end Forest

end Lexicon

/-
Module: Lexicon.Forest.Basic
Layer: Forest
Purpose: A forest of maps from 32-bit keys to values, with maps nested below entries.
Imports: Lexicon.Error, Lexicon.Forest.Arena
Trusted boundary: none
Main exports: Table, Forest, Forest.get?, Forest.put, Forest.erase, Forest.nested?,
  Forest.createNested?, Forest.entries
-/
import Lexicon.Error
import Lexicon.Forest.Arena

namespace Lexicon

/-!
A forest holds tables, each a map from keys to values of at most 36 bits.  Entry by entry a table may
be nested below a key; it stays in the forest when its entry is erased.  A table is a tree of nodes:
level by level, the labels of a key lead from the table's slot to the key's entry, which stands at
the first level where no other key of the table shares its labels.
-/

/-- The name of a table: the slot of its topmost node. -/
structure Table where
  slot : Nat
deriving DecidableEq, Repr, Inhabited

/-- What a table holds under one key. -/
structure Entry where
  key : Int32
  value : Nat
  nested : Option Table
deriving DecidableEq, Repr

/-- All tables that were ever created, and how many entries they have together. -/
structure Forest where
  arena : Arena
  count : Nat
deriving Repr

namespace Forest

/-- The number of bits of a value. -/
def valueBits : Nat := 36

/-- The largest value that an entry can hold. -/
def maxValue : Nat := 0xfffffffff

/-- The forest of one empty table. -/
def new : Forest := { arena := Arena.new, count := 0 }

instance : Inhabited Forest := ⟨new⟩

/-- The table that every forest has. -/
def root : Table := ⟨0⟩

/-- Whether no table has an entry. -/
def isEmpty (forest : Forest) : Bool := forest.count == 0

/-- How many slots the arena has, free ones included. -/
def slotCount (forest : Forest) : Nat := forest.arena.slots.size

/-- The bytes that the slots take, free ones included. -/
def usedBytes (forest : Forest) : Nat := forest.slotCount * Slot.byteSize

/-- A short description for people. -/
def describe (forest : Forest) : String :=
  s!"TrieMap \x7b len: {forest.count}, slots: {forest.slotCount} \x7d"

/-! ### Looking keys up -/

/-- Where the entry of a key stands. -/
structure Place where
  /-- The node whose child the entry is. -/
  parent : Nat
  /-- The slot of the entry. -/
  slot : Nat
  /-- The level of the parent. -/
  level : Nat
deriving DecidableEq, Repr

/-- Follows the labels of a key downwards from a node.  `remaining` counts the levels that are left,
the node's own included. -/
def locateFrom (arena : Arena) (key : Int32) :
    (remaining level node : Nat) → Option Place
  | 0, _, _ => none
  | remaining + 1, level, node =>
      let parent := arena.slot node
      let label := Label.ofKey key level
      if parent.labels.contains label then
        let index := parent.child label
        match arena.slot index with
        | .entry found _ _ =>
            if found = key then some { parent := node, slot := index, level := level } else none
        | .node .. => locateFrom arena key remaining (level + 1) index
      else
        none

/-- The place of a key's entry in a table, if the table has the key. -/
def locate (forest : Forest) (table : Table) (key : Int32) : Option Place :=
  locateFrom forest.arena key levels 0 table.slot

/-- The value that a table holds under a key. -/
def get? (forest : Forest) (table : Table) (key : Int32) : Option Nat :=
  match forest.locate table key with
  | none => none
  | some place =>
      match forest.arena.slot place.slot with
      | .entry _ value _ => some value
      | .node .. => none

/-- Whether a table has a key. -/
def contains (forest : Forest) (table : Table) (key : Int32) : Bool :=
  (forest.locate table key).isSome

/-- The table nested below a key, if the table has the key and a table was created there. -/
def nested? (forest : Forest) (table : Table) (key : Int32) : Option Table :=
  match forest.locate table key with
  | none => none
  | some place =>
      match forest.arena.slot place.slot with
      | .entry _ _ nested => nested.map Table.mk
      | .node .. => none

/-! ### Changing tables -/

/-- Stores a value under a key, from a node downwards.  An entry of another key that stands in the
way is pushed down level by level until the labels of the two keys part. -/
def putFrom (key : Int32) (value : Nat) :
    (remaining level node : Nat) → Forest → Except Error Unit × Forest
  | 0, _, _, forest => (.error (.format (.keyTooDeep key)), forest)
  | remaining + 1, level, node, ⟨arena, count⟩ =>
      let parent := arena.slot node
      let label := Label.ofKey key level
      if parent.labels.contains label then
        let index := parent.child label
        match arena.slot index with
        | .node .. => putFrom key value remaining (level + 1) index ⟨arena, count⟩
        | .entry resident old nested =>
            if resident = key then
              (.ok (), ⟨arena.write index (.entry key value nested), count⟩)
            else if remaining = 0 then
              (.error (.format (.keyTooDeep key)), ⟨arena, count⟩)
            else
              match arena.pushDown index level resident (.entry resident old nested) with
              | (false, arena) => (.error .forestFull, ⟨arena, count⟩)
              | (true, arena) => putFrom key value remaining (level + 1) index ⟨arena, count⟩
      else
        match arena.insertChild node label (.entry key value none) with
        | (false, arena) => (.error .forestFull, ⟨arena, count⟩)
        | (true, arena) => (.ok (), ⟨arena, count + 1⟩)

/-- Stores a value under a key.  A key that is there keeps its nested table.  The answer comes with
the forest that is left behind, also when the value is refused. -/
def put (forest : Forest) (table : Table) (key : Int32) (value : Nat) :
    Except Error Unit × Forest :=
  if value > maxValue then
    (.error (.valueOutOfRange value valueBits), forest)
  else
    putFrom key value levels 0 table.slot forest

/-- Takes a key out of a table and tells whether it was there.  A table nested below the key stays
in the forest, but nothing leads to it any more.  The number of entries does not go below zero, which
only a forest that was read with too small a number could bring about. -/
def erase (forest : Forest) (table : Table) (key : Int32) : Bool × Forest :=
  match forest.locate table key, forest with
  | none, forest => (false, forest)
  | some place, ⟨arena, count⟩ =>
      (true, ⟨arena.eraseChild place.parent (Label.ofKey key place.level), count - 1⟩)

/-- The table nested below a key, created empty if there is none yet.  There is no answer when the
table does not have the key, or when the arena is full. -/
def createNested? (forest : Forest) (table : Table) (key : Int32) : Option Table × Forest :=
  match forest.locate table key, forest with
  | none, forest => (none, forest)
  | some place, ⟨arena, count⟩ =>
      match arena.slot place.slot with
      | .node .. => (none, ⟨arena, count⟩)
      | .entry _ _ (some nested) => (some ⟨nested⟩, ⟨arena, count⟩)
      | .entry found value none =>
          match arena.alloc 1 with
          | (none, arena) => (none, ⟨arena, count⟩)
          | (some nested, arena) =>
              let arena := arena.write nested Slot.empty
              let arena := arena.write place.slot (.entry found value (some nested))
              (some ⟨nested⟩, ⟨arena, count⟩)

/-! ### Listing a table -/

/-- The entries at and below a slot, in the order of their labels.  `remaining` counts the levels of
nodes that are left. -/
def entriesFrom (arena : Arena) : (remaining index : Nat) → List Entry
  | remaining, index =>
      match arena.slot index with
      | .entry key value nested => [{ key := key, value := value, nested := nested.map Table.mk }]
      | .node labels run _ =>
          match remaining with
          | 0 => []
          | remaining + 1 =>
              (List.range labels.size).flatMap fun place => entriesFrom arena remaining (run + place)

/-- The entries of a table, without those of the tables nested in it.  Their order is that of the
label sequences of their keys, whatever the order in which they were stored. -/
def entries (forest : Forest) (table : Table) : List Entry :=
  entriesFrom forest.arena levels table.slot

/-! ### Small facts -/

theorem put_of_gt {forest : Forest} {table : Table} {key : Int32} {value : Nat}
    (wide : maxValue < value) :
    forest.put table key value = (.error (.valueOutOfRange value valueBits), forest) := by
  simp [put, wide]

theorem erase_of_nowhere {forest : Forest} {table : Table} {key : Int32}
    (nowhere : forest.locate table key = none) : forest.erase table key = (false, forest) := by
  unfold erase
  rw [nowhere]

theorem erase_of_located {forest : Forest} {table : Table} {key : Int32} {place : Place}
    (located : forest.locate table key = some place) :
    forest.erase table key =
      (true, ⟨forest.arena.eraseChild place.parent (Label.ofKey key place.level),
        forest.count - 1⟩) := by
  unfold erase
  rw [located]

/-- What was taken out was there before. -/
theorem fst_erase (forest : Forest) (table : Table) (key : Int32) :
    (forest.erase table key).1 = forest.contains table key := by
  unfold erase contains
  cases forest.locate table key with
  | none => rfl
  | some place => rfl

end Forest

end Lexicon

/-
Module: Lexicon.Forest.Slot
Layer: Forest
Purpose: The slots of an arena and their sixteen bytes.
Imports: Lexicon.Bytes.Cursor, Lexicon.Forest.LabelSet
Trusted boundary: none
Main exports: Slot, Slot.empty, Slot.labels, Slot.run, Slot.encode, Slot.read
-/
import Lexicon.Bytes.Cursor
import Lexicon.Forest.LabelSet

namespace Lexicon

/-!
A slot is one cell of the arena in which all tables of a forest live.  It is either a node, which
has children in a run of neighbouring slots, one for each label of its set and in the order of the
labels, or an entry, which holds a key and its value.  A table is named by the slot of its topmost
node.
-/

/-- One cell of an arena. -/
inductive Slot where
  /-- A node with its labels and the place of its first child.  The run of a node without labels
  says nothing.  `spare` is what the unused bits of the stored form hold: it is kept as it was
  read, and new nodes have zero there. -/
  | node (labels : LabelSet) (run spare : Nat)
  /-- An entry with its key, its value and the slot of its nested table, if it has one. -/
  | entry (key : Int32) (value : Nat) (nested : Option Nat)
deriving DecidableEq, Repr

namespace Slot

/-- The node without children: an empty table, and the content of a slot that was never used. -/
def empty : Slot := .node LabelSet.empty 0 0

instance : Inhabited Slot := ⟨empty⟩

/-- Whether the slot is an entry. -/
def isEntry : Slot → Bool
  | .node .. => false
  | .entry .. => true

/-- The labels of the slot's children. -/
def labels : Slot → LabelSet
  | .node labels _ _ => labels
  | .entry .. => LabelSet.empty

/-- The place of the slot's first child. -/
def run : Slot → Nat
  | .node _ run _ => run
  | .entry .. => 0

/-- The place of the child under a label, which has to be one of the slot's labels. -/
def child (slot : Slot) (label : Label) : Nat :=
  slot.run + slot.labels.rank label.val

/-- The bytes that one slot takes. -/
def byteSize : Nat := 16

/-- The bit of the second 32-bit word that tells an entry from a node. -/
def entryMark : Nat := 0x80000000

/-- The stored form of a slot, two words of 32 bits and eight bytes more.  A node has its run, its
spare bits and its labels there, an entry its key, the mark with the nested table, and its value. -/
def encode : Slot → List UInt8
  | .node labels run spare =>
      LittleEndian.encode 4 run ++ LittleEndian.encode 4 (spare % entryMark) ++
        LittleEndian.encode 4 labels.bits.toNat ++ LittleEndian.encode 4 (spare / entryMark)
  | .entry key value nested =>
      LittleEndian.encodeSigned key ++ LittleEndian.encode 4 (entryMark + nested.getD 0) ++
        LittleEndian.encode 8 value

/-- Reads the stored form of a slot.  Every sixteen bytes are the form of one slot; a nested table
of zero stands for none, since slot zero is the root table. -/
def read : Reader Slot := do
  let low ← Reader.number 4
  let high ← Reader.number 4
  if high < entryMark then
    let labels ← Reader.number 4
    let above ← Reader.number 4
    pure (.node ⟨BitVec.ofNat 32 labels⟩ low (high + entryMark * above))
  else
    let value ← Reader.number 8
    let nested := high - entryMark
    pure (.entry (LittleEndian.signedOfNat low) value (if nested = 0 then none else some nested))

@[simp] theorem length_encode (slot : Slot) : slot.encode.length = byteSize := by
  cases slot <;> simp [encode, byteSize, LittleEndian.encodeSigned]

end Slot

end Lexicon

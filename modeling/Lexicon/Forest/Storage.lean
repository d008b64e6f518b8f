/-
Module: Lexicon.Forest.Storage
Layer: Forest
Purpose: The stored form of a forest: a count of slots, a count of entries, and the slots.
Imports: Lexicon.Forest.Validation
Trusted boundary: none
Main exports: Forest.encode, Forest.read
-/
import Lexicon.Forest.Validation

namespace Lexicon

/-- A reader that can say why it fails. -/
abbrev CheckedReader := StateT Cursor (Except Error)

namespace CheckedReader

/-- A plain reader fails only where the bytes end too early. -/
def ofReader {α : Type} (reader : Reader α) : CheckedReader α := fun cursor =>
  match reader cursor with
  | some answer => .ok answer
  | none => .error (.file .endOfFile)

/-- Gives the reason for which the bytes that were read are refused. -/
def refuse {α : Type} (fault : FormatFault) : CheckedReader α := fun _ => .error (.format fault)

/-- Goes on only when a check of the values read so far succeeds. -/
def require (check : Except FormatFault Unit) : CheckedReader Unit :=
  match check with
  | .ok () => pure ()
  | .error fault => refuse fault

end CheckedReader

namespace Forest

/-- The stored form of a forest.  Free runs are not recorded: their slots are stored as they are,
and count as used when the forest is read back. -/
def encode (forest : Forest) : List UInt8 :=
  LittleEndian.encode 4 forest.slotCount ++ LittleEndian.encode 8 forest.count ++
    forest.arena.slots.toList.flatMap Slot.encode

/-- Reads slots, and appends them to those that were read before. -/
def readSlots : (count : Nat) → Array Slot → Reader (Array Slot)
  | 0, slots => pure slots
  | count + 1, slots => do
      let slot ← Slot.read
      readSlots count (slots.push slot)

/-- Reads the stored form of a forest.  The slots are all read before the first of them is
checked. -/
def read : CheckedReader Forest := do
  let slotCount ← CheckedReader.ofReader (Reader.number 4)
  let count ← CheckedReader.ofReader (Reader.number 8)
  if slotCount = 0 || slotCount > maxSlots then
    CheckedReader.refuse (.badSlotCount slotCount)
  else
    let slots ← CheckedReader.ofReader (readSlots slotCount #[])
    CheckedReader.require (checkSlots slots)
    CheckedReader.require (checkReachable slots)
    pure { arena := Arena.ofSlots slots, count := count }

end Forest

end Lexicon

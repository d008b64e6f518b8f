/-
Module: Lexicon.Bytes.Cursor
Layer: Bytes
Purpose: Reading bytes from a position onwards, one field after the other.
Imports: Lexicon.Bytes.LittleEndian
Trusted boundary: none
Main exports: Cursor, Cursor.rest, Reader, Reader.byte, Reader.number, Reader.block
-/
import Lexicon.Bytes.LittleEndian

namespace Lexicon

/-- A place in a byte sequence from which reading goes on. -/
structure Cursor where
  bytes : ByteArray
  position : Nat := 0

namespace Cursor

/-- The bytes that have not been read yet.  This is the view in which the laws of readers are
stated; reading itself never builds the list. -/
def rest (cursor : Cursor) : List UInt8 :=
  cursor.bytes.data.toList.drop cursor.position

/-- How many bytes have not been read yet. -/
def left (cursor : Cursor) : Nat :=
  cursor.bytes.size - cursor.position

theorem length_rest (cursor : Cursor) : cursor.rest.length = cursor.left := by
  simp [rest, left]

end Cursor

/-- A reader takes a value off the front of the unread bytes, or fails when they end too early. -/
abbrev Reader := StateT Cursor Option

namespace Reader

/-- The next byte. -/
def byte : Reader UInt8 := fun cursor =>
  if inside : cursor.position < cursor.bytes.size then
    some (cursor.bytes[cursor.position], { cursor with position := cursor.position + 1 })
  else
    none

/-- The number that the next `width` bytes spell, least significant byte first. -/
def number : (width : Nat) → Reader Nat
  | 0 => pure 0
  | width + 1 => do
      let low ← byte
      let high ← number width
      pure (low.toNat + 256 * high)

/-- The signed 32-bit number that the next four bytes spell. -/
def signed : Reader Int32 := do
  let pattern ← number 4
  pure (LittleEndian.signedOfNat pattern)

/-- Reads `count` values of one kind, one after the other. -/
def times {α : Type} (reader : Reader α) : (count : Nat) → Reader (List α)
  | 0 => pure []
  | count + 1 => do
      let first ← reader
      let others ← times reader count
      pure (first :: others)

/-- The next `length` bytes as they are. -/
def block (length : Nat) : Reader ByteArray := fun cursor =>
  if cursor.position + length ≤ cursor.bytes.size then
    some (cursor.bytes.extract cursor.position (cursor.position + length),
      { cursor with position := cursor.position + length })
  else
    none

/-- How many bytes are left to read. -/
def left : Reader Nat := fun cursor => some (cursor.left, cursor)

/-- What a reader finds at a given offset of a buffer, and how many bytes it took there. -/
def runAt {α : Type} (reader : Reader α) (buffer : ByteArray) (offset : Nat) : Option (α × Nat) :=
  match reader { bytes := buffer, position := offset } with
  | some (value, cursor) => some (value, cursor.position - offset)
  | none => none

/-! ### The laws of the primitive readers, in terms of the unread bytes -/

/-- The next byte is the head of the unread bytes, and the rest stays unread. -/
theorem byte_eq_some_iff {cursor next : Cursor} {value : UInt8} :
    byte cursor = some (value, next) ↔
      cursor.rest = value :: next.rest ∧
        next = { cursor with position := cursor.position + 1 } := by
  unfold byte Cursor.rest
  split
  next inside =>
    have length : cursor.position < cursor.bytes.data.toList.length := by
      simpa using inside
    rw [List.drop_eq_getElem_cons length]
    constructor
    · intro same
      cases same
      exact ⟨rfl, rfl⟩
    · rintro ⟨view, rfl⟩
      simp only [List.cons.injEq] at view
      simp [← view.1, ByteArray.getElem_eq_getElem_data]
  next outside =>
    have length : cursor.bytes.data.toList.length ≤ cursor.position := by
      simpa using outside
    simp [List.drop_eq_nil_of_le length]

end Reader

end Lexicon

/-
Module: Lexicon.Bytes.Buffer
Layer: Bytes
Purpose: Byte buffers that grow at the end and are overwritten in place.
Trusted boundary: none
Main exports: Buffer.append, Buffer.overwrite
-/

namespace Lexicon

namespace Buffer

/-- Appends bytes to a buffer. -/
def append (buffer : ByteArray) (bytes : List UInt8) : ByteArray :=
  buffer ++ bytes.toByteArray

/-- Replaces the bytes from an offset on; what would lie beyond the end is dropped. -/
def overwrite (buffer : ByteArray) : (offset : Nat) → List UInt8 → ByteArray
  | _, [] => buffer
  | offset, byte :: bytes =>
      if inside : offset < buffer.size then
        overwrite (buffer.set offset byte inside) (offset + 1) bytes
      else
        buffer

@[simp] theorem size_append (buffer : ByteArray) (bytes : List UInt8) :
    (append buffer bytes).size = buffer.size + bytes.length := by
  simp [append]

/-- Overwriting changes no length. -/
@[simp] theorem size_overwrite (buffer : ByteArray) (offset : Nat) (bytes : List UInt8) :
    (overwrite buffer offset bytes).size = buffer.size := by
  induction bytes generalizing buffer offset with
  | nil => rfl
  | cons byte bytes ih =>
      rw [overwrite]
      split
      next inside =>
        rw [ih, ← ByteArray.size_data, ByteArray.data_set]
        simp
      next => rfl

end Buffer

end Lexicon

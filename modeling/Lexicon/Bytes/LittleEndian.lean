/-
Module: Lexicon.Bytes.LittleEndian
Layer: Bytes
Purpose: Numbers as a fixed count of bytes, least significant byte first.
Trusted boundary: none
Main exports: LittleEndian.span, LittleEndian.encode, LittleEndian.decode, LittleEndian.decode_encode,
  LittleEndian.encode_decode
-/

namespace Lexicon

namespace LittleEndian

/-- How many numbers can be told apart by a count of bytes. -/
def span : (width : Nat) → Nat
  | 0 => 1
  | width + 1 => 256 * span width

/-- The low `width` bytes of a number, least significant first.  Whatever does not fit is dropped,
so the value kept is the number modulo `span width`. -/
def encode : (width : Nat) → Nat → List UInt8
  | 0, _ => []
  | width + 1, number => UInt8.ofNat number :: encode width (number / 256)

/-- The number that a list of bytes spells. -/
def decode : List UInt8 → Nat
  | [] => 0
  | byte :: rest => byte.toNat + 256 * decode rest

/-- A signed 32-bit number takes four bytes, in two's complement. -/
def encodeSigned (number : Int32) : List UInt8 :=
  encode 4 number.toUInt32.toNat

/-- The signed 32-bit number whose two's complement pattern is the given number. -/
def signedOfNat (pattern : Nat) : Int32 :=
  (UInt32.ofNat pattern).toInt32

@[simp] theorem length_encode (width number : Nat) : (encode width number).length = width := by
  induction width generalizing number with
  | zero => rfl
  | succ width ih => simp [encode, ih]

theorem decode_encode (width number : Nat) :
    decode (encode width number) = number % span width := by
  induction width generalizing number with
  | zero => simp [encode, decode, span, Nat.mod_one]
  | succ width ih =>
      have split : number % (256 * span width) =
          number % 256 + 256 * (number / 256 % span width) := Nat.mod_mul
      rw [encode, decode, ih, span, split]
      simp

/-- A number that fits is read back as it was written. -/
theorem decode_encode_of_lt {width number : Nat} (fits : number < span width) :
    decode (encode width number) = number := by
  rw [decode_encode, Nat.mod_eq_of_lt fits]

theorem decode_lt (bytes : List UInt8) : decode bytes < span bytes.length := by
  induction bytes with
  | nil => simp [decode, span]
  | cons byte rest ih =>
      have low := byte.toNat_lt
      rw [decode, List.length_cons, span]
      omega

/-- Bytes are written back as they were read, so no two spellings share a value. -/
theorem encode_decode (bytes : List UInt8) : encode bytes.length (decode bytes) = bytes := by
  induction bytes with
  | nil => rfl
  | cons byte rest ih =>
      have low := byte.toNat_lt
      have quotient : (byte.toNat + 256 * decode rest) / 256 = decode rest := by omega
      have first : UInt8.ofNat (byte.toNat + 256 * decode rest) = byte := by
        apply UInt8.toNat_inj.mp
        rw [UInt8.toNat_ofNat']
        omega
      rw [List.length_cons, decode, encode, quotient, first, ih]

theorem signedOfNat_toNat (number : Int32) : signedOfNat number.toUInt32.toNat = number := by
  simp [signedOfNat]

end LittleEndian

end Lexicon

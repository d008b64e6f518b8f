/-
Module: Lexicon.Bytes.Checksum
Layer: Bytes
Purpose: The Adler-32 checksum of a sequence of bytes.
Trusted boundary: none
Main exports: Checksum, Checksum.ofBytes, Checksum.value
-/

namespace Lexicon

/-- Two running sums: `low` is one more than the sum of the bytes so far, and `high` is the sum of
all values that `low` has taken after a byte. -/
structure Checksum where
  low : Nat
  high : Nat
deriving DecidableEq, Repr

namespace Checksum

/-- The largest prime of sixteen bits, modulo which both sums are taken. -/
def modulus : Nat := 65521

/-- The sums before the first byte. -/
def start : Checksum := { low := 1, high := 0 }

/-- The sums after one more byte. -/
def add (sums : Checksum) (byte : UInt8) : Checksum :=
  let low := (sums.low + byte.toNat) % modulus
  { low := low, high := (sums.high + low) % modulus }

/-- The sums as one 32-bit number. -/
def value (sums : Checksum) : Nat := 0x10000 * sums.high + sums.low

/-- The checksum of a sequence of bytes. -/
def ofBytes (bytes : List UInt8) : Nat := (bytes.foldl add start).value

end Checksum

end Lexicon

/-
Module: Lexicon.Text.Hexadecimal
Layer: Text
Purpose: Numbers in base sixteen, as messages show them.
Trusted boundary: none
Main exports: Hexadecimal.digits, Hexadecimal.plain, Hexadecimal.word
-/

namespace Lexicon

namespace Hexadecimal

/-- The digits of a number in base sixteen, lowercase and without leading zeros. -/
def digits (number : Nat) : String :=
  String.ofList (Nat.toDigits 16 number)

/-- A number marked as hexadecimal, with as many digits as it needs. -/
def plain (number : Nat) : String :=
  "0x" ++ digits number

/-- A 32-bit number marked as hexadecimal, always with eight digits. -/
def word (number : Nat) : String :=
  let shown := Nat.toDigits 16 number
  "0x" ++ String.ofList (List.replicate (8 - shown.length) '0' ++ shown)

end Hexadecimal

end Lexicon

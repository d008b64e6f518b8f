/-
Module: Lexicon.Word
Layer: Domain
Purpose: Words as sequences of code points, and their text.
Trusted boundary: none
Main exports: CodePoint, Word, Word.ofString, Word.text, maxWordLength
-/

namespace Lexicon

/-- A code point of a word.  Words come from callers that may hand over any signed 32-bit number,
so a code point need not be the number of a character. -/
abbrev CodePoint := Int32

/-- A word is the sequence of its code points. -/
abbrev Word := List CodePoint

/-- The longest word that a dictionary stores, in code points. -/
def maxWordLength : Nat := 48

namespace CodePoint

/-- The code point of a character. -/
def ofChar (character : Char) : CodePoint :=
  character.val.toInt32

/-- The character with this code point, if there is one: negative numbers, surrogates and numbers
above the last character have none. -/
def char? (codePoint : CodePoint) : Option Char :=
  let number := codePoint.toUInt32
  if valid : number.isValidChar then some ⟨number, valid⟩ else none

end CodePoint

namespace Word

/-- The code points of a text, in order. -/
def ofString (text : String) : Word :=
  text.toList.map CodePoint.ofChar

/-- The text of a word.  Code points that are no characters are left out. -/
def text (word : Word) : String :=
  String.ofList (word.filterMap CodePoint.char?)

end Word

end Lexicon

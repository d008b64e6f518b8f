/-
Module: Lexicon.Text.Quoted
Layer: Text
Purpose: Text between double quotes, as messages show a word.
Imports: Lexicon.Text.Hexadecimal
Trusted boundary: none
Main exports: Quoted.escape, Quoted.render
-/
import Lexicon.Text.Hexadecimal

namespace Lexicon

namespace Quoted

/-- One character inside double quotes.  The quote, the backslash, the three common blanks and the
zero character have escapes of two characters; any other control character of the ASCII range is
shown by its number; all else stands for itself. -/
def escape (character : Char) : String :=
  if character = '"' then "\\\""
  else if character = '\\' then "\\\\"
  else if character = '\n' then "\\n"
  else if character = '\r' then "\\r"
  else if character = '\t' then "\\t"
  else if character.val = 0 then "\\0"
  else if character.val < 0x20 || character.val = 0x7f then
    "\\u\x7b" ++ Hexadecimal.digits character.toNat ++ "\x7d"
  else
    String.singleton character

/-- A text between double quotes, with its characters escaped where they have to be. -/
def render (text : String) : String :=
  "\"" ++ String.join (text.toList.map escape) ++ "\""

end Quoted

end Lexicon

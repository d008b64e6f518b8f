/-
Module: Lexicon.Suggestion.Gesture
Layer: Suggestion
Purpose: Which words a gesture over the keys may stand for.
Imports: Lexicon.Word
Trusted boundary: none
Main exports: Gesture.crosses, Gesture.admits
-/
import Lexicon.Word

namespace Lexicon

namespace Gesture

/-- Whether a path crosses the letters of a word in order.  A letter that repeats the one before it
needs no key of its own. -/
def crosses : (previous : Option CodePoint) → Word → (path : List CodePoint) → Bool
  | _, [], _ => true
  | previous, letter :: letters, path =>
      if previous = some letter then
        crosses previous letters path
      else
        match path.dropWhile (· ≠ letter) with
        | [] => false
        | _ :: path => crosses (some letter) letters path

/-- Whether a path stands for a word: it begins and ends with the word's first and last letters and
crosses all of them in order. -/
def admits (word : Word) (path : List CodePoint) : Bool :=
  word.head? = path.head? && word.getLast? = path.getLast? && crosses none word path

end Gesture

end Lexicon

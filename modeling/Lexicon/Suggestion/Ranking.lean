/-
Module: Lexicon.Suggestion.Ranking
Layer: Suggestion
Purpose: Suggestions for what was typed, and predictions of the next word.
Imports: Lexicon.Dictionary.Completion, Lexicon.Suggestion.Gesture, Lexicon.Suggestion.Shortlist
Trusted boundary: none
Main exports: SuggestionRequest, Dictionary.suggest, Dictionary.predict
-/
import Lexicon.Dictionary.Completion
import Lexicon.Suggestion.Gesture
import Lexicon.Suggestion.Shortlist

namespace Lexicon

/-- What suggestions are asked for. -/
structure SuggestionRequest where
  /-- The code points typed, or the keys that a gesture crossed. -/
  input : Word
  /-- The word before, empty at the start of a sentence. -/
  previous : Word := []
  gesture : Bool := false
  /-- The lowest score that is of interest. -/
  minScore : Int := 0
deriving Repr

namespace Dictionary

/-- The score of a word with a given probability, after the word before it. -/
def score (dictionary : Dictionary) (previous word : Word) (probability : Int) : Reading Int :=
  if previous.isEmpty then
    pure (combine probability noProbability)
  else do
    let bigram ← dictionary.bigramProbability previous word
    pure (combine probability bigram)

/-- Adds those words to a shortlist that have a score of interest. -/
def consider (dictionary : Dictionary) (request : SuggestionRequest) :
    List (Word × Int) → Shortlist → Reading Shortlist
  | [], shortlist => pure shortlist
  | (word, probability) :: others, shortlist => do
      let score ← dictionary.score request.previous word probability
      let shortlist :=
        if score ≠ noProbability && score ≥ request.minScore then
          shortlist.add { word := word, score := score }
        else
          shortlist
      consider dictionary request others shortlist

/-- Adds suggestions to a shortlist: for typed input the words that begin with it, for a gesture the
words that it may stand for.  Without input there are none. -/
def suggest (dictionary : Dictionary) (request : SuggestionRequest) (shortlist : Shortlist) :
    Reading Shortlist :=
  match request.input with
  | [] => pure shortlist
  | first :: _ =>
      if request.gesture then do
        let words ← dictionary.completions [first]
        let words := words.filter fun word => Gesture.admits word.1 request.input
        dictionary.consider request words shortlist
      else do
        let words ← dictionary.completions request.input
        dictionary.consider request words shortlist

/-- Adds those followers to a shortlist that may be suggested. -/
def considerFollowers (dictionary : Dictionary) :
    List Bigram → Shortlist → Reading Shortlist
  | [], shortlist => pure shortlist
  | bigram :: others, shortlist => do
      let probability ← dictionary.probability bigram.target
      let shortlist :=
        if probability = noProbability then shortlist
        else shortlist.add { word := bigram.target, score := bigram.probability }
      considerFollowers dictionary others shortlist

/-- Adds the words that follow a word to a shortlist, by the probabilities of the bigrams. -/
def predict (dictionary : Dictionary) (previous : Word) (shortlist : Shortlist) :
    Reading Shortlist :=
  if previous.isEmpty then
    pure shortlist
  else do
    match ← dictionary.property previous with
    | none => pure shortlist
    | some property => dictionary.considerFollowers property.bigrams shortlist

end Dictionary

end Lexicon

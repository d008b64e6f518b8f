/-
Module: Lexicon.Dictionary.Completion
Layer: Dictionary
Purpose: The suggestible words that begin with a given one.
Imports: Lexicon.Dictionary.Lookup
Trusted boundary: none
Main exports: Dictionary.completions
-/
import Lexicon.Dictionary.Lookup

namespace Lexicon

namespace Dictionary

/-- The completion that an entry stands for, if its value names a word that may be suggested. -/
def completion (dictionary : Dictionary) (word : Word) (value : Nat) :
    Reading (List (Word × Int)) :=
  if value = 0 || value - 1 > maxOffset then
    pure []
  else do
    let probability ← dictionary.suggestibleProbability (value - 1)
    pure (probability.toList.map fun probability => (word, probability))

/-- Puts the answers for the members of a list one after the other. -/
def gather {α β : Type} (answers : α → Reading (List β)) : List α → Reading (List β)
  | [] => pure []
  | first :: others => do
      let here ← answers first
      let later ← gather answers others
      pure (here ++ later)

/-- The completions in a table and below it, depth first, so that a word comes before its
extensions.  `remaining` counts the code points that may follow. -/
def completionsFrom (dictionary : Dictionary) :
    (remaining : Nat) → (table : Table) → (stem : Word) → Reading (List (Word × Int))
  | 0, _, _ => pure []
  | remaining + 1, table, stem =>
      gather
        (fun entry => do
          let word := stem ++ [entry.key]
          let here ← dictionary.completion word entry.value
          let below ←
            match entry.nested with
            | none => pure []
            | some nested => completionsFrom dictionary remaining nested word
          pure (here ++ below))
        (dictionary.content.words.entries table)

/-- All suggestible words that begin with the given one, itself included, with their
probabilities. -/
def completions (dictionary : Dictionary) (stem : Word) : Reading (List (Word × Int)) :=
  let words := dictionary.content.words
  let remaining := maxWordLength - stem.length
  match stem.getLast? with
  | none => dictionary.completionsFrom remaining Forest.root []
  | some last =>
      match descend words Forest.root stem.dropLast with
      | none => pure []
      | some table =>
          match words.get? table last with
          | none => pure []
          | some value => do
              let here ← dictionary.completion stem value
              let below ←
                match words.nested? table last with
                | none => pure []
                | some nested => dictionary.completionsFrom remaining nested stem
              pure (here ++ below)

end Dictionary

end Lexicon

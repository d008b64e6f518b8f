/-
Module: Lexicon.Dictionary.Traversal
Layer: Dictionary
Purpose: Walking through the stored words in the order in which they were first added.
Imports: Lexicon.Dictionary.Lookup
Trusted boundary: none
Main exports: Dictionary.nextWord, Dictionary.nextWord_token, Dictionary.walk, Dictionary.forWords
-/
import Lexicon.Dictionary.Lookup

namespace Lexicon

namespace Dictionary

/-- The word at a token and the token of the word after it.  The token zero starts a walk; the
answer zero ends it.  Beyond the end of the words, and where no word can be read, the answer is the
empty word. -/
def nextWord (dictionary : Dictionary) (token : Nat) : Reading (Word × Nat) :=
  if dictionary.content.terminals.size ≤ token then
    pure ([], 0)
  else
    dictionary.readTerminal token >>= fun
      | none => pure ([], 0)
      | some terminal =>
          pure (terminal.word,
            if dictionary.content.terminals.size ≤ token + terminal.size then 0
            else token + terminal.size)

/-- Tokens of a walk grow and stay inside the buffer, whatever the buffer holds. -/
theorem nextWord_token (dictionary : Dictionary) (token : Nat) :
    (dictionary.nextWord token).value.2 = 0 ∨
      token < (dictionary.nextWord token).value.2 ∧
        (dictionary.nextWord token).value.2 < dictionary.content.terminals.size := by
  unfold nextWord
  split
  next => exact Or.inl rfl
  next inside =>
    rw [Reading.value_bind]
    cases (dictionary.readTerminal token).value with
    | none => exact Or.inl rfl
    | some terminal =>
        have positive := terminal.size_pos
        simp only [Reading.value_pure]
        split
        next => exact Or.inl rfl
        next => exact Or.inr ⟨by omega, by omega⟩

set_option linter.unusedVariables false in
/-- The words from a token on, each with the token after it.  The last pair is the first with the
token zero. -/
def walk (dictionary : Dictionary) (token : Nat) : Reading (List (Word × Nat)) :=
  let step := dictionary.nextWord token
  if ended : step.value.2 = 0 then
    step >>= fun last => pure [last]
  else
    step >>= fun here =>
      walk dictionary step.value.2 >>= fun others =>
        pure (here :: others)
termination_by dictionary.content.terminals.size - token
decreasing_by
  rcases dictionary.nextWord_token token with stop | further
  · exact absurd stop ended
  · omega

set_option linter.unusedVariables false in
/-- Does something with every word from a token on, in order, for as long as words can be read.  It
may be anything that can take note of damage met while reading. -/
def forWords {m : Type → Type} [Monad m] [MonadLiftT Reading m] (dictionary : Dictionary)
    (visit : Word → m Unit) (token : Nat) : m Unit := do
  let step := dictionary.nextWord token
  let (word, _) ← (liftM step : m (Word × Nat))
  if word.isEmpty then
    pure ()
  else
    visit word
    if ended : step.value.2 = 0 then
      pure ()
    else
      forWords dictionary visit step.value.2
termination_by dictionary.content.terminals.size - token
decreasing_by
  rcases dictionary.nextWord_token token with stop | further
  · exact absurd stop ended
  · omega

end Dictionary

end Lexicon

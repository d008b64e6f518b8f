/-
Module: Lexicon.Proofs.Dictionary.Inquiry
Layer: Proofs
Purpose: Asking leaves a dictionary as it was, unless a walk is asked to go on where no word can be read:
  then damage is noted, and nothing else.
Imports: Lexicon.Proofs.Dictionary.Chronicle
Trusted boundary: none
Main exports: Dictionary.Question, Dictionary.Question.ask, Dictionary.Question.Strays,
  Dictionary.Chronicle.ask_harmless
-/
import Lexicon.Proofs.Dictionary.Chronicle

namespace Lexicon

open Vocabulary

namespace Dictionary

/-! ### Questions -/

/-- Something that a dictionary is asked.  A walk may be asked to go on with any number for a token. -/
inductive Question where
  | probability (word : Word)
  | bigramProbability (first second : Word)
  | property (word : Word)
  | next (token : Nat)
  | completions (stem : Word)
  | suggest (request : SuggestionRequest) (shortlist : Shortlist)
  | predict (previous : Word) (shortlist : Shortlist)

namespace Question

/-- What a question leaves behind: the damage that is met on the way to the answer is noted. -/
def ask (dictionary : Dictionary) : Question → Dictionary
  | .probability word => (dictionary.note (dictionary.probability word)).2
  | .bigramProbability first second =>
      (dictionary.note (dictionary.bigramProbability first second)).2
  | .property word => (dictionary.note (dictionary.property word)).2
  | .next token => (dictionary.note (dictionary.nextWord token)).2
  | .completions stem => (dictionary.note (dictionary.completions stem)).2
  | .suggest request shortlist => (dictionary.note (dictionary.suggest request shortlist)).2
  | .predict previous shortlist => (dictionary.note (dictionary.predict previous shortlist)).2

/-- A walk is asked to go on before the end of the words, where no word can be read. -/
def Strays (dictionary : Dictionary) (question : Question) : Prop :=
  ∃ token, question = .next token ∧ token < dictionary.content.terminals.size ∧
    (dictionary.readTerminal token).value = none

end Question

/-! ### What they leave behind -/

section Asking

variable {dictionary : Dictionary}

/-- A reading that is an answer and nothing else is not noted. -/
theorem note_pure {α : Type} {reading : Reading α} {answer : α} (plain : reading = pure answer) :
    (dictionary.note reading).2 = dictionary := by
  rw [note_of_undamaged dictionary (by rw [plain]; rfl)]

/-- A reading that meets damage is noted. -/
theorem note_damaged {α : Type} {reading : Reading α} (damaged : reading.damaged = true) :
    (dictionary.note reading).2 = dictionary.marked := by
  rw [note, damaged, Bool.or_true, marked]

/-- A walk that does not stray meets no damage. -/
theorem nextWord_undamaged {token : Nat} (straight : ¬ (Question.next token).Strays dictionary) :
    (dictionary.nextWord token).damaged = false := by
  rw [nextWord]
  split
  next => rfl
  next inside =>
    cases read : (dictionary.readTerminal token).value with
    | none => exact absurd ⟨token, rfl, Nat.not_le.mp inside, read⟩ straight
    | some terminal =>
        have sound : (dictionary.readTerminal token).damaged = false :=
          (Reading.damaged_ofRecord _).trans (congrArg Option.isNone read)
        rw [Reading.damaged_bind, read, sound]
        rfl

/-- Where a walk that is over or meets no damage goes on, it does not stray. -/
theorem not_strays_of_undamaged {token : Nat} (undamaged : (dictionary.nextWord token).damaged = false) :
    ¬ (Question.next token).Strays dictionary := by
  rintro ⟨other, same, inside, unreadable⟩
  cases same
  rw [(nextWord_of_unreadable inside unreadable).2] at undamaged
  cases undamaged

end Asking

namespace Chronicle

variable {dictionary : Dictionary} {vocabulary : Vocabulary} {places : List (Word × Nat)}

/-- Where a walk starts or was told to go on it does not stray. -/
theorem not_strays (chronicle : Chronicle dictionary vocabulary places) {token : Nat}
    (known : token = 0 ∨ token ∈ places.map (·.2)) :
    ¬ (Question.next token).Strays dictionary := by
  refine not_strays_of_undamaged ?_
  rw [chronicle.nextWord_eq (leads_of_known chronicle.leads known)]
  rfl

/-- A question that does not stray is answered without damage, whatever it asks for. -/
theorem ask_straight (chronicle : Chronicle dictionary vocabulary places) {question : Question}
    (straight : ¬ question.Strays dictionary) : question.ask dictionary = dictionary := by
  have clear := chronicle.cleared
  cases question with
  | probability word => exact note_pure (clear.probability word)
  | bigramProbability first second => exact note_pure (clear.bigramProbability first second)
  | property word => exact note_pure ((property_cleared dictionary word).symm.trans (clear.property word))
  | next token =>
      rw [Question.ask, note_of_undamaged dictionary (nextWord_undamaged straight)]
  | completions stem =>
      obtain ⟨_, plain, _⟩ := clear.completions clear stem
      exact note_pure ((completions_cleared dictionary stem).symm.trans plain)
  | suggest request shortlist =>
      obtain ⟨_, plain, _⟩ := clear.suggest clear request shortlist
      exact note_pure ((suggest_cleared dictionary request shortlist).symm.trans plain)
  | predict previous shortlist =>
      obtain ⟨_, plain, _⟩ := clear.predict clear previous shortlist
      exact note_pure ((predict_cleared dictionary previous shortlist).symm.trans plain)

/-- Asking changes nothing, and so nothing that is done later, unless a walk is asked to go on before the
end of the words where no word can be read.  Then damage is noted, and nothing else happens; it is not
noted where the walk starts, where an earlier walk was told to go on, or where the words end. -/
theorem ask_harmless (chronicle : Chronicle dictionary vocabulary places) (question : Question) :
    (¬ question.Strays dictionary → question.ask dictionary = dictionary) ∧
      (question.Strays dictionary → question.ask dictionary = dictionary.marked) ∧
      ∀ token, token = 0 ∨ token ∈ places.map (·.2) ∨ dictionary.content.terminals.size ≤ token →
        ¬ (Question.next token).Strays dictionary := by
  refine ⟨chronicle.ask_straight, ?_, fun token known => ?_⟩
  · rintro ⟨token, rfl, inside, unreadable⟩
    exact note_damaged (nextWord_of_unreadable inside unreadable).2
  · rcases known with start | returned | behind
    · exact chronicle.not_strays (.inl start)
    · exact chronicle.not_strays (.inr returned)
    · rintro ⟨other, same, inside, _⟩
      cases same
      exact Nat.not_lt.mpr behind inside

/-- Two words. -/
def glimpse : List Operation :=
  [.request (.addUnigram [97] { probability := 1 }),
    .request (.addUnigram [98] { probability := 2 })]

/-- A walk over them may be asked to go on where it was told to, and inside the first record it may
not. -/
theorem ask_harmless_glimpse :
    ∃ dictionary vocabulary places, Chronicle dictionary vocabulary places ∧ ([97], 9) ∈ places ∧
      dictionary.damaged = false ∧ ¬ (Question.next 9).Strays dictionary ∧
      (Question.next 9).ask dictionary = dictionary ∧
      (Question.predict [97] (.new 3)).ask dictionary = dictionary ∧
      (Question.next 1).Strays dictionary ∧
      (Question.next 1).ask dictionary = dictionary.marked := by
  have first : (reached .standard glimpse).nextWord 0 = pure ([97], 9) := by decide +kernel
  have walked := (chronicle_reached .standard glimpse).walked (.inl rfl)
  rw [note_pure first, first] at walked
  have straight := (walked.ask_harmless (.next 9)).2.2 9 (.inr (.inl List.mem_cons_self))
  have predicts : ¬ (Question.predict [97] (.new 3)).Strays (reached .standard glimpse) :=
    fun ⟨_, other, _⟩ => nomatch other
  have strays : (Question.next 1).Strays (reached .standard glimpse) :=
    ⟨1, rfl, by decide +kernel, by decide +kernel⟩
  exact ⟨_, _, _, walked, List.mem_cons_self, by decide +kernel, straight,
    (walked.ask_harmless (.next 9)).1 straight,
    (walked.ask_harmless (.predict [97] (.new 3))).1 predicts, strays,
    (walked.ask_harmless (.next 1)).2.1 strays⟩

/-- Asking is not always harmless: inside the first of two records no word can be read, and a dictionary
that was asked to go on there refuses to be compacted, which it would not have refused. -/
theorem ask_inside_record :
    Genuine (reached .standard glimpse) ∧ (reached .standard glimpse).damaged = false ∧
      ((reached .standard glimpse).flushCompacted .empty "m").1 = .ok () ∧
      ((Question.next 1).ask (reached .standard glimpse)).damaged = true ∧
      (((Question.next 1).ask (reached .standard glimpse)).flushCompacted .empty "m").1 =
        .error (.format .compactingDamaged) := by
  refine ⟨genuine_reached .standard glimpse, ?_, ?_, ?_, ?_⟩
  · decide +kernel
  · decide +kernel
  · decide +kernel
  · decide +kernel

end Chronicle

end Dictionary

end Lexicon

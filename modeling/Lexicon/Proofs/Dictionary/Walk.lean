/-
Module: Lexicon.Proofs.Dictionary.Walk
Layer: Proofs
Purpose: Walks through a dictionary that represents a vocabulary go through its words, in order.
Imports: Lexicon.Proofs.Dictionary.Answers
Trusted boundary: none
Main exports: Reading.Agree, Dictionary.Represents.forWords_eq,
  Dictionary.Represents.walk_of_spelled, Dictionary.Represents.walk
-/
import Lexicon.Proofs.Dictionary.Answers

namespace Lexicon

open Vocabulary

/-! ### Readings that agree -/

namespace Reading

variable {α β : Type}

/-- Two readings give the same answer, without damage. -/
def Agree (first second : Reading α) : Prop := ∃ answer, first = pure answer ∧ second = pure answer

theorem Agree.pure (value : α) : Agree (Pure.pure value : Reading α) (Pure.pure value) :=
  ⟨value, rfl, rfl⟩

theorem Agree.bind {first second : Reading α} {next further : α → Reading β}
    (agree : Agree first second) (rest : ∀ value, Agree (next value) (further value)) :
    Agree (first >>= next) (second >>= further) := by
  obtain ⟨value, rfl, rfl⟩ := agree
  obtain ⟨answer, here, there⟩ := rest value
  exact ⟨answer, by rw [Reading.pure_bind, here], by rw [Reading.pure_bind, there]⟩

/-- Readings that agree agree when something is put in front of their answers. -/
theorem Agree.behind {first second : Reading (List α)} (agree : Agree first second)
    (here : List α) :
    Agree (first >>= fun later => Pure.pure (here ++ later))
      (second >>= fun later => Pure.pure (here ++ later)) :=
  agree.bind fun _ => .pure _

end Reading

open Reading (Agree)

/-! ### Tokens of a walk -/

namespace Vocabulary

variable {word : Word}

/-- A walk can go on behind some words if there are more. -/
theorem walkable_total {vocabulary : Vocabulary} {before after : List Word}
    (split : vocabulary.spelled = before ++ word :: after) :
    total vocabulary.spelled ≤ total before ∨
      (wordAt vocabulary.spelled (total before)).isSome = true := by
  rw [split, wordAt_total]
  exact Or.inr rfl

theorem next_total {vocabulary : Vocabulary} {before after : List Word}
    (split : vocabulary.spelled = before ++ word :: after) :
    vocabulary.next (total before) =
      (word, if after = [] then 0 else total (before ++ [word])) := by
  have here := wordAt_total before word after
  rw [← split] at here
  rw [Vocabulary.next, here]
  have size : total vocabulary.spelled = total (before ++ [word]) + total after := by
    rw [split, ← List.singleton_append, ← List.append_assoc, total_append]
  have ends : total (before ++ [word]) = total before + recordSize word := by
    rw [total_append, total_cons, total_nil, Nat.add_zero]
  dsimp only
  rw [size, ends]
  cases after with
  | nil => rw [if_pos (by simp), if_pos rfl]
  | cons first others =>
      have positive := recordSize_pos first
      rw [total_cons, if_neg (by omega), if_neg (by simp)]

end Vocabulary

/-- A walk that ends answers zero, and else there is a word at the answer. -/
theorem Vocabulary.known_next (vocabulary : Vocabulary) (token : Nat) :
    (vocabulary.next token).2 = 0 ∨
      (wordAt vocabulary.spelled (vocabulary.next token).2).isSome = true := by
  rw [Vocabulary.next]
  cases here : wordAt vocabulary.spelled token with
  | none => exact Or.inl rfl
  | some word =>
      dsimp only
      split
      next => exact Or.inl rfl
      next inside => exact Or.inr (isSome_wordAt_next here (Nat.lt_of_not_le inside))

namespace Dictionary.Represents

variable {dictionary other : Dictionary} {vocabulary : Vocabulary}

section ForWords

variable {m : Type → Type} [Monad m] [LawfulMonad m] [MonadLiftT Reading m]

/-- At a word that is there something is done with it, and then with those behind it, if there are
any. -/
theorem forWords_total (represents : dictionary.Represents vocabulary)
    (lift_pure : ∀ {α : Type} (value : α), (liftM (pure value : Reading α) : m α) = pure value)
    (visit : Word → m Unit) {before after : List Word} {word : Word}
    (split : vocabulary.spelled = before ++ word :: after) :
    dictionary.forWords visit (total before) =
      visit word >>= fun _ =>
        if after = [] then pure () else dictionary.forWords visit (total (before ++ [word])) := by
  have step := represents.nextWord (walkable_total split)
  have some : word ≠ [] := (represents.content.storable_word (by rw [split]; simp)).1
  have goesOn : total (before ++ [word]) ≠ 0 := by
    have positive := recordSize_pos word
    rw [total_append, total_cons]
    omega
  rw [next_total split] at step
  rw [forWords, step, lift_pure]
  simp only [pure_bind, List.isEmpty_iff, some, if_false]
  by_cases last : after = []
  · simp only [if_pos last, Reading.value_pure, dite_true]
  · simp only [if_neg last, Reading.value_pure, goesOn, dite_false]

/-- Doing something with every word is doing it with every word of the vocabulary, in order. -/
theorem forWords_eq (represents : dictionary.Represents vocabulary)
    (lift_pure : ∀ {α : Type} (value : α), (liftM (pure value : Reading α) : m α) = pure value)
    (visit : Word → m Unit) :
    dictionary.forWords visit 0 = vocabulary.spelled.forM visit := by
  have further : ∀ {after before : List Word} {word : Word},
      vocabulary.spelled = before ++ word :: after →
        dictionary.forWords visit (total before) = (word :: after).forM visit := by
    intro after
    induction after with
    | nil =>
        intro before word split
        rw [represents.forWords_total lift_pure visit split, if_pos rfl]
        rfl
    | cons next after ih =>
        intro before word split
        have further : vocabulary.spelled = (before ++ [word]) ++ next :: after :=
          split.trans (List.append_cons _ _ _)
        rw [represents.forWords_total lift_pure visit split, if_neg (List.cons_ne_nil next after),
          ih further]
        rfl
  cases words : vocabulary.spelled with
  | nil =>
      have ended : total vocabulary.spelled ≤ 0 := by
        rw [words]
        exact Nat.le_refl 0
      have step := represents.nextWord (Or.inl ended)
      rw [Vocabulary.next, words] at step
      rw [forWords, step]
      rw [wordAt, lift_pure, pure_bind]
      rfl
  | cons first others => exact further (show vocabulary.spelled = [] ++ first :: others from words)

end ForWords

/-- One step of a walk. -/
theorem walk_step (represents : dictionary.Represents vocabulary) {token : Nat}
    (valid : total vocabulary.spelled ≤ token ∨ (wordAt vocabulary.spelled token).isSome = true) :
    dictionary.walk token =
      if (vocabulary.next token).2 = 0 then pure [vocabulary.next token]
      else dictionary.walk (vocabulary.next token).2 >>= fun others =>
        pure (vocabulary.next token :: others) := by
  have step := represents.nextWord valid
  rw [walk, step]
  simp only [Reading.value_pure, pure_bind]
  by_cases ended : (vocabulary.next token).2 = 0
  · rw [dif_pos ended, if_pos ended]
  · rw [dif_neg ended, if_neg ended]

/-- A walk from a token gives the same words and the same tokens in every dictionary with the same
words. -/
theorem walk_of_spelled {another : Vocabulary} (represents : dictionary.Represents vocabulary)
    (representsOther : other.Represents another) (same : another.spelled = vocabulary.spelled)
    {token : Nat}
    (valid : total vocabulary.spelled ≤ token ∨ (wordAt vocabulary.spelled token).isSome = true) :
    Agree (dictionary.walk token) (other.walk token) := by
  -- Both walks take the steps that the vocabulary takes, whose words are the same.
  have answer : ∀ {token : Nat}, (total vocabulary.spelled ≤ token ∨
      (wordAt vocabulary.spelled token).isSome = true) →
        (dictionary.nextWord token).value = vocabulary.next token := by
    intro token valid
    rw [represents.nextWord valid]
    rfl
  have next : ∀ token, another.next token = vocabulary.next token := by
    intro token
    rw [Vocabulary.next, Vocabulary.next, same]
  have step : ∀ {token : Nat}, (total vocabulary.spelled ≤ token ∨
      (wordAt vocabulary.spelled token).isSome = true) →
        other.walk token =
          if (vocabulary.next token).2 = 0 then pure [vocabulary.next token]
          else other.walk (vocabulary.next token).2 >>= fun others =>
            pure (vocabulary.next token :: others) := by
    intro token valid
    rw [representsOther.walk_step (same ▸ valid)]
    simp only [next]
  induction token using Dictionary.walk.induct dictionary with
  | case1 token _ ended =>
      have last : (vocabulary.next token).2 = 0 := answer valid ▸ ended
      rw [represents.walk_step valid, step valid, if_pos last, if_pos last]
      exact .pure _
  | case2 token _ further ih =>
      have goesOn : (vocabulary.next token).2 ≠ 0 := answer valid ▸ further
      have known := (known_next vocabulary token).resolve_left goesOn
      have rest : Agree (dictionary.walk (vocabulary.next token).2)
          (other.walk (vocabulary.next token).2) :=
        answer valid ▸ ih (Or.inr (answer valid ▸ known))
      rw [represents.walk_step valid, step valid, if_neg goesOn, if_neg goesOn]
      exact rest.bind fun _ => .pure _

/-- A walk from a token gives the same words and the same tokens in every dictionary that says the
same. -/
theorem walk (represents : dictionary.Represents vocabulary)
    (representsOther : other.Represents vocabulary) {token : Nat}
    (valid : total vocabulary.spelled ≤ token ∨ (wordAt vocabulary.spelled token).isSome = true) :
    Agree (dictionary.walk token) (other.walk token) :=
  represents.walk_of_spelled representsOther rfl valid

end Dictionary.Represents

end Lexicon

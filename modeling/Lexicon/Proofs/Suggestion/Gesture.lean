/-
Module: Lexicon.Proofs.Suggestion.Gesture
Layer: Proofs
Purpose: A gesture stands for those words whose letters can be placed on its path in order, whatever
  else the path crosses between its ends; and taking each letter at the first key that will do finds a
  place for all of them whenever there is one.
Imports: Lexicon.Suggestion.Gesture, Mathlib.Data.List.Destutter, Mathlib.Data.List.NodupEquivFin
Trusted boundary: none
Main exports: Gesture.strokes, Gesture.sublist_dropWhile_iff, Gesture.crosses_iff_sublist,
  Gesture.admits_iff_sublist
-/
import Lexicon.Suggestion.Gesture
import Mathlib.Data.List.Destutter
import Mathlib.Data.List.NodupEquivFin

namespace Lexicon

namespace Gesture

/-! ### The letters that need keys of their own -/

/-- The letters of a word, behind a letter before it, without those that repeat the one before. -/
def strokes : (previous : Option CodePoint) → Word → List CodePoint
  | _, [] => []
  | previous, letter :: letters =>
      if previous = some letter then strokes previous letters
      else letter :: strokes (some letter) letters

theorem strokes_some (previous : CodePoint) (word : Word) :
    previous :: strokes (some previous) word = word.destutter' (· ≠ ·) previous := by
  induction word generalizing previous with
  | nil => rfl
  | cons letter letters ih =>
      by_cases same : previous = letter
      · subst same
        simp [strokes, ih]
      · simp [strokes, same, ih]

/-- Of each run of equal letters one needs a key. -/
theorem strokes_none (word : Word) : strokes none word = word.destutter (· ≠ ·) := by
  cases word with
  | nil => rfl
  | cons letter letters => exact strokes_some letter letters

/-! ### Placing letters on a path -/

variable {letter : CodePoint} {letters path : List CodePoint}

/-- The first key with the first letter may always be taken for it: wherever the letters can be placed
on the path, they can be placed on what is left of it from that key on. -/
theorem sublist_dropWhile_iff :
    (letter :: letters).Sublist path ↔
      (letter :: letters).Sublist (path.dropWhile (· ≠ letter)) := by
  induction path with
  | nil => rfl
  | cons key keys ih =>
      by_cases found : key = letter
      · simp [found]
      · have other : letter ≠ key := Ne.symm found
        simp only [List.cons_sublist_cons', other, false_and, or_false]
        simpa [found] using ih

/-- A path crosses the letters of a word if and only if they can be placed on it in order. -/
theorem crosses_iff_sublist (previous : Option CodePoint) (word : Word) (path : List CodePoint) :
    crosses previous word path = true ↔ (strokes previous word).Sublist path := by
  induction word generalizing previous path with
  | nil => simp [crosses, strokes]
  | cons letter letters ih =>
      by_cases same : previous = some letter
      · simp [crosses, strokes, same, ih]
      · rw [crosses, strokes, if_neg same, if_neg same, sublist_dropWhile_iff]
        cases left : path.dropWhile (· ≠ letter) with
        | nil => simp
        | cons key keys =>
            -- the search ends at a key that has the letter
            have found : key = letter := by
              have stops := List.head?_dropWhile_not (· ≠ letter) path
              rw [left] at stops
              simpa using stops
            simp [found, ih]

/-- A gesture stands for a word exactly when its path begins and ends with the first and the last
letter of the word and has the letters, each run of equal ones made one, as a subsequence.  That is to
say that there is a way to place these letters on the path in order: looking for each of them behind
the key of the one before misses none.  And more keys between the ends of the path do no harm. -/
theorem admits_iff_sublist (word : Word) (path : List CodePoint) :
    (admits word path = true ↔
      word.head? = path.head? ∧ word.getLast? = path.getLast? ∧
        (word.destutter (· ≠ ·)).Sublist path) ∧
    (crosses none word path = true ↔
      ∃ keys : Fin (word.destutter (· ≠ ·)).length ↪o Fin path.length,
        ∀ letter, (word.destutter (· ≠ ·)).get letter = path.get (keys letter)) ∧
    ∀ longer : List CodePoint, path.Sublist longer → longer.head? = path.head? →
      longer.getLast? = path.getLast? → admits word path = true → admits word longer = true := by
  have crossed : ∀ path, crosses none word path = true ↔ (word.destutter (· ≠ ·)).Sublist path := by
    intro path
    rw [crosses_iff_sublist, strokes_none]
  have admitted : ∀ path, admits word path = true ↔
      word.head? = path.head? ∧ word.getLast? = path.getLast? ∧
        (word.destutter (· ≠ ·)).Sublist path := by
    intro path
    simp only [admits, Bool.and_eq_true, decide_eq_true_eq, crossed, and_assoc]
  refine ⟨admitted path, ?_, ?_⟩
  · rw [crossed, List.sublist_iff_exists_fin_orderEmbedding_get_eq]
  · intro longer inserted first last stands
    obtain ⟨begins, ends, placed⟩ := (admitted path).mp stands
    rw [admitted, first, last]
    exact ⟨begins, ends, placed.trans inserted⟩

/-- A straight gesture over h, e, l and o stands for a word with two of the letter l, and so does one
that strays over other keys on the way. -/
theorem admits_iff_sublist_straying :
    admits (Word.ofString "hello") (Word.ofString "helo") = true ∧
      admits (Word.ofString "hello") (Word.ofString "hgfrelkjlo") = true := by
  have straight : admits (Word.ofString "hello") (Word.ofString "helo") = true := by decide
  exact ⟨straight, (admits_iff_sublist _ _).2.2 _ (by decide) (by decide) (by decide) straight⟩

end Gesture

end Lexicon

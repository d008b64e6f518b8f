/-
Module: Lexicon.Proofs.Dictionary.Completions
Layer: Proofs
Purpose: Dictionaries that say the same complete words, make suggestions and predict words in the same
  way, however their forests came about.
Imports: Lexicon.Suggestion.Ranking, Lexicon.Proofs.Dictionary.Filing,
  Lexicon.Proofs.Dictionary.Walk
Trusted boundary: none
Main exports: Dictionary.Represents.completions, Dictionary.Represents.suggest,
  Dictionary.Represents.predict
-/
import Lexicon.Suggestion.Ranking
import Lexicon.Proofs.Dictionary.Filing
import Lexicon.Proofs.Dictionary.Walk

namespace Lexicon

open Vocabulary

open Reading (Agree)

/-- What is gathered for entries with the same keys agrees if it does for each key. -/
theorem Dictionary.gather_agree {β : Type} {first second : Entry → Reading (List β)}
    {entries others : List Entry} (same : entries.map (·.key) = others.map (·.key))
    (each : ∀ entry ∈ entries, ∀ other ∈ others, entry.key = other.key →
      Agree (first entry) (second other)) :
    Agree (gather first entries) (gather second others) := by
  induction entries generalizing others with
  | nil =>
      rw [List.map_nil, eq_comm, List.map_eq_nil_iff] at same
      subst same
      exact .pure []
  | cons entry entries ih =>
      cases others with
      | nil => cases same
      | cons other others =>
          rw [List.map_cons, List.map_cons, List.cons.injEq] at same
          refine (each entry List.mem_cons_self other List.mem_cons_self same.1).bind fun here => ?_
          refine Agree.bind (ih same.2 ?_) fun later => .pure _
          intro entry among other inside equal
          exact each entry (List.mem_cons_of_mem _ among) other (List.mem_cons_of_mem _ inside) equal

namespace Dictionary.Represents

variable {dictionary other : Dictionary} {vocabulary : Vocabulary}

/-! ### Completions -/

/-- What a filed word is completed to is said by the vocabulary. -/
theorem completion (represents : dictionary.Represents vocabulary) {word : Word} {value : Nat}
    {nested : Bool} (filed : filing vocabulary.spelled word = some (value, nested)) :
    dictionary.completion word value =
      pure (match vocabulary.unigram? word with
        | none => []
        | some unigram => if unigram.suggestible then [(word, unigram.probability)] else []) := by
  have answer := @getD_filing_value vocabulary.spelled word
  rw [filed, Option.map_some, Option.getD_some] at answer
  subst answer
  rw [Dictionary.completion]
  cases known : vocabulary.unigram? word with
  | none =>
      rw [placeIn_eq_none.mpr (unigram?_eq_none.mp known)]
      rfl
  | some unigram =>
      obtain ⟨token, _, place, _⟩ := represents.records known
      have small := represents.content.token_lt place
      have inside : (decide (token + 1 = 0) || decide (token > maxOffset)) = false := by
        simp only [Bool.or_eq_false_iff, decide_eq_false_iff_not]
        omega
      simp only [place, Option.map_some, Option.getD_some, Nat.add_sub_cancel, inside,
        Bool.false_eq_true, if_false, represents.suggestibleProbability known place, pure_bind]
      cases unigram.suggestible <;> rfl

theorem completion_agree (represents : dictionary.Represents vocabulary)
    (representsOther : other.Represents vocabulary) {word : Word} {value : Nat} {nested : Bool}
    (filed : filing vocabulary.spelled word = some (value, nested)) :
    Agree (dictionary.completion word value) (other.completion word value) :=
  ⟨_, represents.completion filed, representsOther.completion filed⟩

/-- A path leads to a table in both dictionaries or in none. -/
theorem isSome_descend (represents : dictionary.Represents vocabulary)
    (representsOther : other.Represents vocabulary) (path : Word) :
    (descend other.content.words Forest.root path).isSome =
      (descend dictionary.content.words Forest.root path).isSome := by
  induction path using List.reverseRecOn with
  | nil => rfl
  | append_singleton path key _ =>
      rw [Forest.isSome_descend_snoc, Forest.isSome_descend_snoc, represents.content.filed,
        representsOther.content.filed]

/-- A path leads nowhere in both dictionaries, or to a table in each. -/
theorem descend_cases (represents : dictionary.Represents vocabulary)
    (representsOther : other.Represents vocabulary) (path : Word) :
    descend dictionary.content.words Forest.root path = none ∧
        descend other.content.words Forest.root path = none ∨
      ∃ table otherTable, descend dictionary.content.words Forest.root path = some table ∧
        descend other.content.words Forest.root path = some otherTable := by
  have same := represents.isSome_descend representsOther path
  cases along : descend dictionary.content.words Forest.root path with
  | none =>
      rw [along, Option.isSome_none, Option.isSome_eq_false_iff, Option.isNone_iff_eq_none] at same
      exact Or.inl ⟨rfl, same⟩
  | some table =>
      rw [along] at same
      obtain ⟨otherTable, alongOther⟩ := Option.isSome_iff_exists.mp same
      exact Or.inr ⟨table, otherTable, rfl, alongOther⟩

/-- The entries of a table hold what is filed below the path to it. -/
theorem entry_spec (represents : dictionary.Represents vocabulary) {path : Word} {table : Table}
    (along : descend dictionary.content.words Forest.root path = some table) {entry : Entry}
    (member : entry ∈ dictionary.content.words.entries table) :
    filing vocabulary.spelled (path ++ [entry.key]) = some (entry.value, entry.nested.isSome) ∧
      descend dictionary.content.words Forest.root (path ++ [entry.key]) = entry.nested := by
  obtain ⟨tables, sound⟩ := represents.content.words
  have has := (Forest.mem_entries sound (sound.descend_mem along) entry).mp member
  refine ⟨?_, ?_⟩
  · rw [← represents.content.filed, Forest.Sound.at?_of_descend along, has]
    rfl
  · rw [Forest.descend_below along, Forest.nested?_eq, has]
    rfl

theorem entries_keys_eq (represents : dictionary.Represents vocabulary)
    (representsOther : other.Represents vocabulary) {path : Word} {table otherTable : Table}
    (along : descend dictionary.content.words Forest.root path = some table)
    (alongOther : descend other.content.words Forest.root path = some otherTable) :
    (dictionary.content.words.entries table).map (·.key) =
      (other.content.words.entries otherTable).map (·.key) := by
  obtain ⟨tables, sound⟩ := represents.content.words
  obtain ⟨otherTables, soundOther⟩ := representsOther.content.words
  refine Forest.entries_keys_eq sound (sound.descend_mem along) soundOther
    (soundOther.descend_mem alongOther) ?_
  intro key
  have here := represents.content.filed path key
  have there := representsOther.content.filed path key
  rw [Forest.Sound.at?_of_descend along] at here
  rw [Forest.Sound.at?_of_descend alongOther] at there
  have same := congrArg Option.isSome (here.trans there.symm)
  rw [Option.isSome_map, Option.isSome_map] at same
  exact same

/-- Below the same path both dictionaries have the same completions, in the same order. -/
theorem completionsFrom_agree (represents : dictionary.Represents vocabulary)
    (representsOther : other.Represents vocabulary) (remaining : Nat) :
    ∀ {path : Word} {table otherTable : Table},
      descend dictionary.content.words Forest.root path = some table →
      descend other.content.words Forest.root path = some otherTable →
        Agree (dictionary.completionsFrom remaining table path)
          (other.completionsFrom remaining otherTable path) := by
  induction remaining with
  | zero => exact fun _ _ => .pure []
  | succ remaining ih =>
      intro path table otherTable along alongOther
      rw [completionsFrom, completionsFrom]
      refine gather_agree (represents.entries_keys_eq representsOther along alongOther) ?_
      intro entry among partner inside same
      obtain ⟨filed, below⟩ := represents.entry_spec along among
      obtain ⟨filedOther, belowOther⟩ := representsOther.entry_spec alongOther inside
      rw [← same] at filedOther belowOther
      have equal := filed.symm.trans filedOther
      simp only [Option.some.injEq, Prod.mk.injEq] at equal
      dsimp only
      rw [← same, ← equal.1]
      refine (represents.completion_agree representsOther filed).bind fun here => ?_
      rcases represents.descend_cases representsOther (path ++ [entry.key]) with
        ⟨nowhere, nowhereOther⟩ | ⟨next, otherNext, further, furtherOther⟩
      · rw [← below, ← belowOther, nowhere, nowhereOther]
        exact (Agree.pure []).behind here
      · rw [← below, ← belowOther, further, furtherOther]
        exact (ih further furtherOther).behind here

/-- Both dictionaries complete a word in the same way. -/
theorem completions (represents : dictionary.Represents vocabulary)
    (representsOther : other.Represents vocabulary) (stem : Word) :
    Agree (dictionary.completions stem) (other.completions stem) := by
  induction stem using List.reverseRecOn with
  | nil => exact represents.completionsFrom_agree representsOther _ rfl rfl
  | append_singleton path key _ =>
      rw [Dictionary.completions, Dictionary.completions]
      simp only [List.getLast?_concat, List.dropLast_concat]
      rcases represents.descend_cases representsOther path with
        ⟨along, alongOther⟩ | ⟨table, otherTable, along, alongOther⟩
      · rw [along, alongOther]
        exact .pure []
      · rw [along, alongOther]
        dsimp only
        rw [Forest.Lawful.get?_at along, Forest.Lawful.get?_at alongOther,
          represents.content.filed, representsOther.content.filed]
        cases filed : filing vocabulary.spelled (path ++ [key]) with
        | none => exact .pure []
        | some content =>
            refine (represents.completion_agree representsOther filed).bind fun here => ?_
            have below := Forest.descend_below along key
            have belowOther := Forest.descend_below alongOther key
            rcases represents.descend_cases representsOther (path ++ [key]) with
              ⟨nowhere, nowhereOther⟩ | ⟨next, otherNext, further, furtherOther⟩
            · rw [← below, ← belowOther, nowhere, nowhereOther]
              exact (Agree.pure []).behind here
            · rw [← below, ← belowOther, further, furtherOther]
              exact (represents.completionsFrom_agree representsOther _ further
                furtherOther).behind here

/-! ### Suggestions and predictions -/

theorem score_agree (represents : dictionary.Represents vocabulary)
    (representsOther : other.Represents vocabulary) (previous word : Word) (probability : Int) :
    Agree (dictionary.score previous word probability) (other.score previous word probability) := by
  rw [score, score]
  split
  next => exact .pure _
  next =>
    rw [represents.bigramProbability, representsOther.bigramProbability]
    exact (Agree.pure _).bind fun _ => .pure _

theorem consider_agree (represents : dictionary.Represents vocabulary)
    (representsOther : other.Represents vocabulary) (request : SuggestionRequest)
    (words : List (Word × Int)) : ∀ shortlist,
    Agree (dictionary.consider request words shortlist) (other.consider request words shortlist) := by
  induction words with
  | nil => exact fun shortlist => .pure shortlist
  | cons first others ih =>
      intro shortlist
      exact (represents.score_agree representsOther _ _ _).bind fun score => ih _

/-- Both dictionaries make the same suggestions. -/
theorem suggest (represents : dictionary.Represents vocabulary)
    (representsOther : other.Represents vocabulary) (request : SuggestionRequest)
    (shortlist : Shortlist) :
    Agree (dictionary.suggest request shortlist) (other.suggest request shortlist) := by
  rw [Dictionary.suggest, Dictionary.suggest]
  split
  next => exact .pure shortlist
  next =>
    split
    next =>
      exact (represents.completions representsOther _).bind fun words =>
        represents.consider_agree representsOther _ _ _
    next =>
      exact (represents.completions representsOther _).bind fun words =>
        represents.consider_agree representsOther _ _ _

theorem considerFollowers_agree (represents : dictionary.Represents vocabulary)
    (representsOther : other.Represents vocabulary) (bigrams : List Bigram) : ∀ shortlist,
    Agree (dictionary.considerFollowers bigrams shortlist)
      (other.considerFollowers bigrams shortlist) := by
  induction bigrams with
  | nil => exact fun shortlist => .pure shortlist
  | cons bigram others ih =>
      intro shortlist
      rw [considerFollowers, considerFollowers, represents.probability, representsOther.probability]
      exact (Agree.pure _).bind fun probability => ih _

/-- Both dictionaries predict the same words. -/
theorem predict (represents : dictionary.Represents vocabulary)
    (representsOther : other.Represents vocabulary) (previous : Word) (shortlist : Shortlist) :
    Agree (dictionary.predict previous shortlist) (other.predict previous shortlist) := by
  rw [Dictionary.predict, Dictionary.predict]
  split
  next => exact .pure shortlist
  next =>
    rw [represents.property, representsOther.property]
    refine (Agree.pure _).bind fun property => ?_
    cases property with
    | none => exact .pure shortlist
    | some property => exact represents.considerFollowers_agree representsOther _ _

end Dictionary.Represents

end Lexicon

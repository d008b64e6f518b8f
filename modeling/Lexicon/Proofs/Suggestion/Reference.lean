/-
Module: Lexicon.Proofs.Suggestion.Reference
Layer: Proofs
Purpose: Suggestions are what going through all stored words gives, and the scores of all candidates
  are probabilities that can be stored.
Imports: Lexicon.Proofs.Dictionary.Catalogue, Lexicon.Proofs.Suggestion.Shortlist
Trusted boundary: none
Main exports: SuggestionRequest.admits, Dictionary.rating, Dictionary.candidates, Shortlist.Scored,
  Shortlist.Filled, Dictionary.Genuine.suggest_exhaustive
-/
import Lexicon.Proofs.Dictionary.Catalogue
import Lexicon.Proofs.Suggestion.Shortlist

namespace Lexicon

open Vocabulary

/-! ### Scores -/

namespace Shortlist

/-- Scores are probabilities, and the candidates go from better to worse. -/
structure Scored (shortlist : Shortlist) : Prop where
  score : ∀ candidate ∈ shortlist.candidates, isProbability candidate.score = true
  ordered : shortlist.candidates.Pairwise fun first second => first.leads second = true

/-- The lead of the first candidate over the second one, or its score when it stands alone. -/
def lead (shortlist : Shortlist) : Int :=
  match shortlist.candidates with
  | [] => 0
  | [only] => only.score
  | first :: second :: _ => first.score - second.score

namespace Scored

variable {shortlist : Shortlist}

theorem new (limit : Nat) : Scored (new limit) :=
  ⟨fun _ among => (List.not_mem_nil among).elim, .nil⟩

/-- A candidate whose score is a probability may be added. -/
theorem add (scored : Scored shortlist) {candidate : Candidate}
    (score : isProbability candidate.score = true) : Scored (shortlist.add candidate) := by
  -- the candidates are their own ranking, so the new one makes a ranking of one more
  have ranked : insert candidate shortlist.candidates =
      ranking (shortlist.candidates ++ [candidate]) := by
    rw [ranking_concat, ranking, List.mergeSort_of_pairwise scored.ordered]
  refine ⟨fun other among => ?_, ?_⟩
  · have inside := List.mem_of_mem_take among
    rw [ranked, ranking, List.mem_mergeSort, List.mem_append, List.mem_singleton] at inside
    rcases inside with before | rfl
    · exact scored.score other before
    · exact score
  · rw [Shortlist.add, ranked]
    exact (pairwise_ranking _).sublist (List.take_sublist _ _)

theorem addAll (scored : Scored shortlist) {added : List Candidate}
    (scores : ∀ candidate ∈ added, isProbability candidate.score = true) :
    Scored (shortlist.addAll added) := by
  induction added generalizing shortlist with
  | nil => exact scored
  | cons candidate added ih =>
      exact ih (scored.add (scores candidate List.mem_cons_self))
        fun other among => scores other (List.mem_cons_of_mem _ among)

/-- The lead is a probability, and it is what the confidence says: the difference of two scores is far
from the ends of signed 32-bit numbers. -/
theorem confidence (scored : Scored shortlist) :
    shortlist.confidence = shortlist.lead ∧ 0 ≤ shortlist.lead ∧
      shortlist.lead ≤ maxProbability := by
  have range : ∀ candidate ∈ shortlist.candidates,
      0 ≤ candidate.score ∧ candidate.score ≤ maxProbability := by
    intro candidate among
    have score := scored.score candidate among
    simpa only [isProbability, Bool.and_eq_true, decide_eq_true_eq] using score
  have most : maxProbability = 255 := rfl
  rw [Shortlist.confidence, lead]
  cases held : shortlist.candidates with
  | nil => exact ⟨rfl, Int.le_refl 0, by decide⟩
  | cons first others =>
      rw [held] at range
      have one := range first List.mem_cons_self
      cases others with
      | nil => exact ⟨rfl, one.1, one.2⟩
      | cons second others =>
          have two := range second (List.mem_cons_of_mem _ List.mem_cons_self)
          have ordered := scored.ordered
          rw [held] at ordered
          have leads := List.rel_of_pairwise_cons ordered List.mem_cons_self
          rw [Candidate.leads, decide_eq_true_eq] at leads
          dsimp only
          refine ⟨?_, by omega, by omega⟩
          rw [Int.bmod_eq_of_le (by omega) (by omega)]

end Scored

end Shortlist

/-! ### Going through all words -/

/-- Whether a word is asked for: it begins with what was typed, or a gesture may stand for it.
Without input no word is. -/
def SuggestionRequest.admits (request : SuggestionRequest) (word : Word) : Bool :=
  !request.input.isEmpty &&
    if request.gesture then Gesture.admits word request.input else request.input.isPrefixOf word

/-- A gesture begins at the first letter of a word that it stands for. -/
theorem Gesture.begins_of_admits {word : Word} {first : CodePoint} {keys : List CodePoint}
    (admits : Gesture.admits word (first :: keys) = true) : [first].isPrefixOf word = true := by
  simp only [Gesture.admits, Bool.and_eq_true, List.head?_cons] at admits
  obtain ⟨letters, rfl⟩ := List.head?_eq_some_iff.mp (of_decide_eq_true admits.1.1)
  rw [List.isPrefixOf_iff_prefix]
  exact ⟨letters, rfl⟩

namespace Dictionary

/-- The probability of a word that follows another one, if the two are related. -/
def relation (dictionary : Dictionary) (previous word : Word) : Option Int :=
  ((dictionary.property previous).value.bind fun property =>
    property.bigrams.find? fun bigram => bigram.target = word).map (·.probability)

/-- The score of a word: the probability of its relation to the word before it where there is one,
and its own probability otherwise. -/
def rating (dictionary : Dictionary) (previous word : Word) (probability : Int) : Int :=
  (dictionary.relation previous word).getD probability

/-- The candidates among some words: those that are asked for and have a score of interest. -/
def candidates (dictionary : Dictionary) (request : SuggestionRequest)
    (words : List (Word × Int)) : List Candidate :=
  ((words.filter fun entry => request.admits entry.1).map fun entry =>
    { word := entry.1, score := dictionary.rating request.previous entry.1 entry.2 }).filter
      fun candidate => candidate.score ≥ request.minScore

theorem relation_cleared (dictionary : Dictionary) (previous word : Word) :
    dictionary.cleared.relation previous word = dictionary.relation previous word := by
  rw [relation, property_cleared, relation]

namespace Represents

variable {dictionary : Dictionary} {vocabulary : Vocabulary}

/-- The relation of two words is that of the vocabulary. -/
theorem relation_eq (represents : dictionary.Represents vocabulary) (previous : Word) {word : Word}
    (member : word ∈ vocabulary.spelled) :
    dictionary.relation previous word =
      (vocabulary.bigrams[(previous, word)]?).map (·.probability) := by
  rw [Dictionary.relation, represents.property, Reading.value_pure, Vocabulary.property]
  cases known : vocabulary.unigram? previous with
  | none =>
      -- a word that is not there is not related to any
      cases has : vocabulary.bigrams[(previous, word)]? with
      | none => rfl
      | some record =>
          obtain ⟨low, _, place, _⟩ := represents.content.related has
          rw [placeIn_eq_none.mpr (unigram?_eq_none.mp known)] at place
          cases place
  | some unigram =>
      rw [Option.map_some, Option.bind_some]
      dsimp only
      cases has : vocabulary.bigrams[(previous, word)]? with
      | none =>
          have none : (vocabulary.bigramsOf previous).find? (fun bigram => bigram.target = word) =
              none := by
            refine List.find?_eq_none.mpr fun bigram among => ?_
            rw [decide_eq_true_eq]
            rintro rfl
            rw [(mem_bigramsOf.mp among).2] at has
            cases has
          rw [none]
          rfl
      | some record =>
          have among : Bigram.mk word record.probability record.history ∈
              vocabulary.bigramsOf previous := mem_bigramsOf.mpr ⟨member, has⟩
          cases found : (vocabulary.bigramsOf previous).find?
              (fun bigram => bigram.target = word) with
          | none => exact absurd (decide_eq_true rfl) (List.find?_eq_none.mp found _ among)
          | some bigram =>
              have target : bigram.target = word := by simpa using List.find?_some found
              have again := (mem_bigramsOf.mp (List.mem_of_find?_eq_some found)).2
              rw [target, has, Option.some.injEq] at again
              rw [again]
              rfl

/-- The score of a word that may be suggested is its rating, and that is a probability. -/
theorem score_eq (represents : dictionary.Represents vocabulary) (previous : Word) {word : Word}
    {probability : Int} (standing : dictionary.standing word = some (false, false, probability)) :
    dictionary.score previous word probability =
        pure (dictionary.rating previous word probability) ∧
      isProbability (dictionary.rating previous word probability) = true := by
  rw [Dictionary.standing, represents.property, Reading.value_pure, Vocabulary.property,
    Option.map_map, Option.map_eq_some_iff] at standing
  obtain ⟨unigram, known, flags⟩ := standing
  have member : word ∈ vocabulary.spelled := isSome_unigram?.mp (by rw [known]; rfl)
  have storable := represents.content.storable
    ((unigram?_eq_some represents.content.distinct).mp known)
  have chance : isProbability probability = true := by
    have same : unigram.probability = probability := (Prod.mk.inj (Prod.mk.inj flags).2).2
    rw [← same]
    exact storable.2.1.probability
  have present : ∀ {number : Int}, isProbability number = true → number ≠ noProbability := by
    intro number storable same
    rw [same] at storable
    exact absurd storable (by decide)
  have related := represents.relation_eq previous member
  rw [rating, related, score]
  cases has : vocabulary.bigrams[(previous, word)]? with
  | none =>
      refine ⟨?_, chance⟩
      rw [represents.bigramProbability, Vocabulary.bigramProbability, has, pure_bind, combine,
        if_neg (present chance), if_pos rfl, ite_self]
      rfl
  | some record =>
      have weight := (represents.content.storableBigram has).probability
      have filled : previous ≠ [] := by
        obtain ⟨_, _, place, _⟩ := represents.content.related has
        exact (represents.content.storable_word (isSome_placeIn.mp (by rw [place]; rfl))).1
      refine ⟨?_, weight⟩
      rw [if_neg (by simpa using filled), represents.bigramProbability,
        Vocabulary.bigramProbability, has, pure_bind, combine, if_neg (present chance),
        if_neg (present weight)]
      rfl

/-- Considering words that may be suggested adds the candidates among them. -/
theorem consider_eq (represents : dictionary.Represents vocabulary) (request : SuggestionRequest)
    {words : List (Word × Int)} (shortlist : Shortlist)
    (standing : ∀ entry ∈ words, dictionary.standing entry.1 = some (false, false, entry.2)) :
    dictionary.consider request words shortlist =
      pure (shortlist.addAll ((words.map fun entry =>
        { word := entry.1, score := dictionary.rating request.previous entry.1 entry.2 }).filter
          fun candidate => candidate.score ≥ request.minScore)) := by
  induction words generalizing shortlist with
  | nil => rfl
  | cons entry words ih =>
      have later := fun shortlist => ih shortlist fun other among =>
        standing other (List.mem_cons_of_mem _ among)
      obtain ⟨scored, chance⟩ :=
        represents.score_eq request.previous (standing entry List.mem_cons_self)
      have counts : dictionary.rating request.previous entry.1 entry.2 ≠ noProbability := by
        intro same
        rw [same] at chance
        exact absurd chance (by decide)
      rw [consider, scored, pure_bind, later, List.map_cons, List.filter_cons]
      dsimp only
      by_cases enough : dictionary.rating request.previous entry.1 entry.2 ≥ request.minScore
      · rw [if_pos (by simp [counts, enough]), if_pos (decide_eq_true enough)]
        rfl
      · rw [if_neg (by simp [enough]), if_neg (by rwa [decide_eq_true_eq])]

/-- Suggestions are the candidates among all words: the words that are left out of account, those
that do not begin with the input or with the first key, are not asked for. -/
theorem suggest_eq (represents : dictionary.Represents vocabulary) (request : SuggestionRequest)
    (shortlist : Shortlist) {everything : List (Word × Int)}
    (catalogue : Catalogue dictionary [] everything)
    (completed : ∀ stem, dictionary.completions stem =
      pure (everything.filter fun entry => stem.isPrefixOf entry.1)) :
    dictionary.suggest request shortlist =
      pure (shortlist.addAll (dictionary.candidates request everything)) := by
  have standing : ∀ {condition : Word × Int → Bool}, ∀ entry ∈ everything.filter condition,
      dictionary.standing entry.1 = some (false, false, entry.2) := by
    intro condition entry among
    exact ((catalogue.mem_iff entry.1 entry.2).mp (List.mem_of_mem_filter among)).2
  rw [Dictionary.suggest, candidates]
  cases input : request.input with
  | nil =>
      have none : everything.filter (fun entry => request.admits entry.1) = [] := by
        refine List.filter_eq_nil_iff.mpr fun entry _ => ?_
        simp [SuggestionRequest.admits, input]
      rw [none]
      rfl
  | cons first keys =>
      dsimp only
      rw [← represents.consider_eq request shortlist standing]
      cases gesture : request.gesture with
      | true =>
          rw [if_pos rfl, completed, pure_bind, List.filter_filter]
          congr 1
          refine List.filter_congr fun entry _ => ?_
          rw [SuggestionRequest.admits, input, gesture]
          cases admits : Gesture.admits entry.1 (first :: keys) with
          | true => rw [Gesture.begins_of_admits admits]; rfl
          | false => rfl
      | false =>
          rw [if_neg Bool.false_ne_true, completed, pure_bind]
          congr 1
          refine List.filter_congr fun entry _ => ?_
          rw [SuggestionRequest.admits, input, gesture]
          rfl

/-- Considering followers adds candidates with their probabilities. -/
theorem considerFollowers_eq (represents : dictionary.Represents vocabulary) {bigrams : List Bigram}
    (storable : ∀ bigram ∈ bigrams, isProbability bigram.probability = true) :
    ∀ shortlist, ∃ added : List Candidate,
      (∀ candidate ∈ added, isProbability candidate.score = true) ∧
        dictionary.considerFollowers bigrams shortlist = pure (shortlist.addAll added) := by
  induction bigrams with
  | nil => exact fun shortlist => ⟨[], fun _ among => (List.not_mem_nil among).elim, rfl⟩
  | cons bigram bigrams ih =>
      intro shortlist
      have later := ih fun other among => storable other (List.mem_cons_of_mem _ among)
      rw [considerFollowers, represents.probability, pure_bind]
      dsimp only
      split
      next => exact later shortlist
      next =>
        obtain ⟨added, scores, rest⟩ :=
          later (shortlist.add { word := bigram.target, score := bigram.probability })
        refine ⟨{ word := bigram.target, score := bigram.probability } :: added, ?_, rest⟩
        rintro candidate (- | ⟨_, among⟩)
        · exact storable bigram List.mem_cons_self
        · exact scores candidate among

end Represents

/-! ### Suggestions of genuine dictionaries -/

namespace Genuine

variable {dictionary : Dictionary}

/-- Among the words that may be suggested, all candidates have probabilities as scores. -/
theorem candidates_scores (genuine : Genuine dictionary) (request : SuggestionRequest)
    {everything : List (Word × Int)} (catalogue : Catalogue dictionary [] everything) :
    ∀ candidate ∈ dictionary.candidates request everything,
      isProbability candidate.score = true := by
  obtain ⟨vocabulary, content⟩ := genuine.sturdy.1
  have represents : dictionary.cleared.Represents vocabulary := ⟨content, rfl⟩
  intro candidate among
  obtain ⟨⟨word, probability⟩, inside, rfl⟩ := List.mem_map.mp (List.mem_of_mem_filter among)
  have standing := ((catalogue.mem_iff word probability).mp (List.mem_of_mem_filter inside)).2
  rw [Dictionary.standing, ← property_cleared] at standing
  have scored := (represents.score_eq request.previous standing).2
  rwa [rating, relation_cleared] at scored

/-- Suggestions are the candidates among all stored words that may be suggested. -/
theorem suggest_eq (genuine : Genuine dictionary) (request : SuggestionRequest)
    (shortlist : Shortlist) :
    ∃ everything, dictionary.completions [] = pure everything ∧
      Catalogue dictionary [] everything ∧
      dictionary.suggest request shortlist =
        pure (shortlist.addAll (dictionary.candidates request everything)) := by
  obtain ⟨vocabulary, content⟩ := genuine.sturdy.1
  have represents : dictionary.cleared.Represents vocabulary := ⟨content, rfl⟩
  obtain ⟨everything, all, catalogue⟩ := genuine.exists_catalogue []
  have completed : ∀ stem, dictionary.completions stem =
      pure (everything.filter fun entry => stem.isPrefixOf entry.1) := by
    intro stem
    obtain ⟨listed, completed, other⟩ := genuine.exists_catalogue stem
    rw [completed, (catalogue.filter (List.nil_prefix)).unique other fun _ => rfl]
  refine ⟨everything, all, catalogue, ?_⟩
  have standing : ∀ word, dictionary.cleared.standing word = dictionary.standing word := by
    intro word
    rw [Dictionary.standing, property_cleared, Dictionary.standing]
  have catalogueCleared : Catalogue dictionary.cleared [] everything := by
    refine ⟨catalogue.ordered, fun word probability => ?_⟩
    rw [standing]
    exact catalogue.mem_iff word probability
  have suggested := represents.suggest_eq request shortlist catalogueCleared fun stem => by
    rw [completions_cleared, completed]
  rw [suggest_cleared] at suggested
  rw [suggested]
  simp only [candidates, rating, relation_cleared]

/-- Predictions add candidates with probabilities as scores. -/
theorem exists_predict_eq (genuine : Genuine dictionary) (previous : Word) (shortlist : Shortlist) :
    ∃ added : List Candidate, (∀ candidate ∈ added, isProbability candidate.score = true) ∧
      dictionary.predict previous shortlist = pure (shortlist.addAll added) := by
  obtain ⟨vocabulary, content⟩ := genuine.sturdy.1
  have represents : dictionary.cleared.Represents vocabulary := ⟨content, rfl⟩
  rw [← predict_cleared, predict, represents.property, pure_bind, Vocabulary.property]
  split
  next => exact ⟨[], fun _ among => (List.not_mem_nil among).elim, rfl⟩
  next =>
    cases vocabulary.unigram? previous with
    | none => exact ⟨[], fun _ among => (List.not_mem_nil among).elim, rfl⟩
    | some unigram =>
        dsimp only [Option.map_some]
        refine represents.considerFollowers_eq ?_ shortlist
        intro bigram among
        exact (content.storableBigram (mem_bigramsOf.mp among).2).probability

end Genuine

end Dictionary

/-! ### Shortlists that dictionaries filled -/

/-- Shortlists that are new or cleared, or to which genuine dictionaries added suggestions and
predictions, whatever these were asked for. -/
inductive Shortlist.Filled : Shortlist → Prop where
  | new (limit : Nat) : Filled (.new limit)
  | clear {shortlist : Shortlist} (filled : Filled shortlist) : Filled shortlist.clear
  | suggest {shortlist : Shortlist} {dictionary : Dictionary} (filled : Filled shortlist)
      (genuine : dictionary.Genuine) (request : SuggestionRequest) :
      Filled (dictionary.suggest request shortlist).value
  | predict {shortlist : Shortlist} {dictionary : Dictionary} (filled : Filled shortlist)
      (genuine : dictionary.Genuine) (previous : Word) :
      Filled (dictionary.predict previous shortlist).value

/-- Dictionaries fill shortlists with probabilities. -/
theorem Shortlist.Filled.scored {shortlist : Shortlist} (filled : Filled shortlist) :
    Scored shortlist := by
  induction filled with
  | new limit => exact .new limit
  | clear => exact .new _
  | suggest _ genuine request ih =>
      obtain ⟨everything, _, catalogue, suggested⟩ := genuine.suggest_eq request _
      rw [suggested]
      exact ih.addAll (genuine.candidates_scores request catalogue)
  | predict _ genuine previous ih =>
      obtain ⟨added, scores, predicted⟩ := genuine.exists_predict_eq previous _
      rw [predicted]
      exact ih.addAll scores

namespace Dictionary

/-- Suggestions are what going through all stored words gives that are neither flagged as no words
nor blacklisted: in the order of completions, those that are asked for are scored by their relation to
the word before, or by their own probability where there is no relation, and those with a score of
interest are added one by one.  Nothing is added without input.  In shortlists that dictionaries filled
all scores are probabilities, so that the confidence is one, too, and does not overflow. -/
theorem Genuine.suggest_exhaustive {dictionary : Dictionary} (genuine : Genuine dictionary)
    (request : SuggestionRequest) {shortlist : Shortlist} (filled : shortlist.Filled) :
    ∃ everything after, dictionary.completions [] = pure everything ∧
      (∀ word probability, (word, probability) ∈ everything ↔
        dictionary.standing word = some (false, false, probability)) ∧
      after = shortlist.addAll (dictionary.candidates request everything) ∧
      dictionary.suggest request shortlist = pure after ∧
      (request.input = [] → after = shortlist) ∧
      (∀ candidate ∈ after.candidates, 0 ≤ candidate.score ∧ candidate.score ≤ 255) ∧
      after.confidence = after.lead ∧ 0 ≤ after.confidence ∧ after.confidence ≤ 255 := by
  obtain ⟨everything, all, catalogue, suggested⟩ := genuine.suggest_eq request shortlist
  have scored := filled.scored.addAll (genuine.candidates_scores request catalogue)
  obtain ⟨lead, least, most⟩ := scored.confidence
  refine ⟨everything, _, all, fun word probability => ?_, rfl, suggested, ?_, ?_, lead, ?_, ?_⟩
  · rw [catalogue.mem_iff, and_iff_right List.nil_prefix]
  · intro none
    rw [suggest, none] at suggested
    exact (congrArg Reading.value suggested).symm
  · intro candidate among
    have score := scored.score candidate among
    simp only [isProbability, Bool.and_eq_true, decide_eq_true_eq] at score
    exact score
  · rwa [lead]
  · rwa [lead]

/-- Words of which one is related to another one, and one is blacklisted. -/
def acquainted : List Operation :=
  [.request (.addUnigram [97, 98] { probability := 7 }),
    .request (.addUnigram [97, 99, 98] { probability := 9 }),
    .request (.addUnigram [98] { probability := 5 }),
    .request (.addUnigram [97, 98, 100] { probability := 30, blacklisted := true }),
    .request (.addBigram [98] { target := [97, 98], probability := 200 })]

/-- A gesture fills a short list first, and then what was typed after a related word drives one
candidate out. -/
theorem Genuine.suggest_exhaustive_acquainted :
    ∃ everything after, Genuine (reached .standard acquainted) ∧
      Shortlist.Filled { limit := 2, candidates := [⟨[97, 98], 7⟩] } ∧
      (reached .standard acquainted).completions [] = pure everything ∧
      everything = [([97, 98], 7), ([97, 99, 98], 9), ([98], 5)] ∧
      (reached .standard acquainted).suggest { input := [97], previous := [98], minScore := 6 }
        { limit := 2, candidates := [⟨[97, 98], 7⟩] } = pure after ∧
      after = { limit := 2, candidates := [⟨[97, 98], 200⟩, ⟨[97, 99, 98], 9⟩] } ∧
      after.confidence = 191 := by
  have genuine := genuine_reached .standard acquainted
  have filled : Shortlist.Filled { limit := 2, candidates := [⟨[97, 98], 7⟩] } := by
    have swiped := (Shortlist.Filled.new 2).suggest genuine
      { input := [97, 100, 98], gesture := true }
    rwa [show ((reached .standard acquainted).suggest { input := [97, 100, 98], gesture := true }
      (.new 2)).value = { limit := 2, candidates := [⟨[97, 98], 7⟩] } by decide +kernel] at swiped
  obtain ⟨everything, after, all, _, _, suggested, _, _, lead, _, _⟩ :=
    genuine.suggest_exhaustive { input := [97], previous := [98], minScore := 6 } filled
  have listed : everything = [([97, 98], 7), ([97, 99, 98], 9), ([98], 5)] := by
    rw [show (reached .standard acquainted).completions [] =
      pure [([97, 98], 7), ([97, 99, 98], 9), ([98], 5)] by decide +kernel] at all
    exact (congrArg Reading.value all).symm
  have last : after = { limit := 2, candidates := [⟨[97, 98], 200⟩, ⟨[97, 99, 98], 9⟩] } := by
    rw [show (reached .standard acquainted).suggest
      { input := [97], previous := [98], minScore := 6 }
      { limit := 2, candidates := [⟨[97, 98], 7⟩] } =
        pure { limit := 2, candidates := [⟨[97, 98], 200⟩, ⟨[97, 99, 98], 9⟩] }
      by decide +kernel] at suggested
    exact (congrArg Reading.value suggested).symm
  refine ⟨everything, after, genuine, filled, all, listed, suggested, last, ?_⟩
  rw [lead, last]
  rfl

end Dictionary

end Lexicon

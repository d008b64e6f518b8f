/-
Module: Lexicon.Proofs.Suggestion.Prediction
Layer: Proofs
Purpose: Predictions are the words that follow a word now and may be suggested, from the most to the
  least probable and else in the order in which the words were first added, whatever happened before.
Imports: Lexicon.Proofs.Dictionary.Chronicle, Lexicon.Proofs.Suggestion.Shortlist
Trusted boundary: none
Main exports: Vocabulary.followers, Shortlist.pairwise_ranking_stable,
  Dictionary.Represents.followers_asked, Dictionary.Represents.predict_eq,
  Dictionary.Chronicle.predict_followers
-/
import Lexicon.Proofs.Dictionary.Chronicle
import Lexicon.Proofs.Suggestion.Shortlist

namespace Lexicon

open Vocabulary

/-! ### Words that follow a word -/

namespace Vocabulary

/-- Whether a word is known that may be suggested. -/
def offers (vocabulary : Vocabulary) (word : Word) : Bool :=
  (vocabulary.unigram? word).any Unigram.suggestible

/-- With which probability a word follows another one, if it does. -/
def likelihood (vocabulary : Vocabulary) (previous word : Word) : Option Int :=
  (vocabulary.bigrams[(previous, word)]?).map BigramRecord.probability

/-- The words that follow a word and may be suggested, in the order in which they were added, each with
the probability that it follows. -/
def followers (vocabulary : Vocabulary) (previous : Word) : List Candidate :=
  vocabulary.spelled.filterMap fun word =>
    if vocabulary.offers word then (vocabulary.likelihood previous word).map (Candidate.mk word)
    else none

variable {vocabulary : Vocabulary}

theorem offers_iff {word : Word} :
    vocabulary.offers word = true ↔ ∃ unigram, vocabulary.unigram? word = some unigram ∧
      unigram.notAWord = false ∧ unigram.blacklisted = false := by
  rw [offers, Option.any_eq_true]
  simp only [Unigram.suggestible, Bool.and_eq_true, Bool.not_eq_true']

theorem mem_followers {previous word : Word} {score : Int} :
    Candidate.mk word score ∈ vocabulary.followers previous ↔
      vocabulary.likelihood previous word = some score ∧ vocabulary.offers word = true := by
  rw [followers, List.mem_filterMap]
  constructor
  · rintro ⟨other, _, listed⟩
    split at listed
    next offered =>
      obtain ⟨_, likely, same⟩ := Option.map_eq_some_iff.mp listed
      cases same
      exact ⟨likely, offered⟩
    next => cases listed
  · rintro ⟨likely, offered⟩
    obtain ⟨unigram, found, _⟩ := offers_iff.mp offered
    have member : word ∈ vocabulary.spelled := isSome_unigram?.mp (by rw [found]; rfl)
    refine ⟨word, member, ?_⟩
    rw [if_pos offered, likely]
    rfl

/-- They are the bigrams of the word that lead to words that are offered. -/
theorem followers_eq (vocabulary : Vocabulary) (previous : Word) :
    ((vocabulary.bigramsOf previous).filter fun bigram => vocabulary.offers bigram.target).map
        (fun bigram => ⟨bigram.target, bigram.probability⟩) = vocabulary.followers previous := by
  rw [followers, bigramsOf, List.filter_filterMap, List.map_filterMap]
  refine List.filterMap_congr fun word _ => ?_
  rw [likelihood]
  cases vocabulary.bigrams[(previous, word)]? with
  | none => exact (ite_self none).symm
  | some record =>
      rw [Option.map_some, Option.filter_some]
      cases vocabulary.offers word with
      | false => rfl
      | true => rfl

/-- They are listed in the order of the words. -/
theorem sublist_followers (vocabulary : Vocabulary) (previous : Word) :
    ((vocabulary.followers previous).map Candidate.word).Sublist vocabulary.spelled := by
  rw [followers]
  induction vocabulary.spelled with
  | nil => exact .slnil
  | cons word words ih =>
      rw [List.filterMap_cons]
      split
      next => exact ih.cons word
      next candidate listed =>
        split at listed
        next =>
          obtain ⟨_, _, rfl⟩ := Option.map_eq_some_iff.mp listed
          exact ih.cons_cons word
        next => cases listed

/-- Words in their order have growing numbers. -/
theorem pairwise_idxOf {words : List Word} (distinct : words.Nodup) :
    words.Pairwise fun first second => words.idxOf first < words.idxOf second := by
  rw [List.pairwise_iff_getElem]
  intro low high insideLow insideHigh less
  rw [distinct.idxOf_getElem, distinct.idxOf_getElem]
  exact less

/-- So have those that follow a word. -/
theorem pairwise_followers (distinct : vocabulary.spelled.Nodup) (previous : Word) :
    (vocabulary.followers previous).Pairwise fun first second =>
      vocabulary.spelled.idxOf first.word < vocabulary.spelled.idxOf second.word := by
  have words : ((vocabulary.followers previous).map Candidate.word).Pairwise fun first second =>
      vocabulary.spelled.idxOf first < vocabulary.spelled.idxOf second :=
    (pairwise_idxOf distinct).sublist (vocabulary.sublist_followers previous)
  rwa [List.pairwise_map] at words

end Vocabulary

namespace Shortlist

/-- A ranking goes from the best to the worst, and where scores are equal in the order of adding. -/
theorem pairwise_ranking_stable {added : List Candidate} {Before : Candidate → Candidate → Prop}
    (ordered : added.Pairwise Before) :
    (ranking added).Pairwise fun first second =>
      second.score < first.score ∨ first.score = second.score ∧ Before first second := by
  rw [List.pairwise_iff_forall_sublist]
  intro first second both
  have leads := List.pairwise_iff_forall_sublist.mp (pairwise_ranking added) both
  rw [Candidate.leads, decide_eq_true_eq] at leads
  rcases Int.lt_or_eq_of_le leads with worse | equal
  · exact .inl worse
  · right
    -- candidates with one score are left in the order in which they were added
    have kept := both.filter (fun candidate => decide (candidate.score = first.score))
    rw [filter_ranking, List.filter_cons_of_pos (by simp), List.filter_cons_of_pos (by simp [equal]),
      List.filter_nil] at kept
    exact ⟨equal.symm, List.pairwise_iff_forall_sublist.mp ordered
      (kept.trans List.filter_sublist)⟩

end Shortlist

/-! ### Predictions -/

/-- What can be stored as a probability is not the number that says that there is none. -/
theorem ne_noProbability {number : Int} (chance : isProbability number = true) :
    number ≠ noProbability := by
  rintro rfl
  exact absurd chance (by decide)

namespace Dictionary

namespace Represents

variable {dictionary : Dictionary} {vocabulary : Vocabulary}

/-- A word has a probability if it is offered. -/
theorem probability_eq_iff (represents : dictionary.Represents vocabulary) (word : Word) :
    vocabulary.probability word = noProbability ↔ vocabulary.offers word = false := by
  rw [Vocabulary.probability, offers]
  cases known : vocabulary.unigram? word with
  | none => exact ⟨fun _ => rfl, fun _ => rfl⟩
  | some unigram =>
      rw [Option.any_some]
      dsimp only
      cases unigram.suggestible with
      | false => exact ⟨fun _ => rfl, fun _ => rfl⟩
      | true =>
          have storable := represents.content.storable
            ((unigram?_eq_some represents.content.distinct).mp known)
          rw [if_pos rfl]
          constructor
          · exact fun none => absurd none (ne_noProbability storable.2.1.probability)
          · intro refused
            cases refused

theorem probability_ne (represents : dictionary.Represents vocabulary) {word : Word}
    (offered : vocabulary.offers word = true) : vocabulary.probability word ≠ noProbability := by
  intro none
  rw [(represents.probability_eq_iff word).mp none] at offered
  cases offered

/-- Considering followers adds those that are offered. -/
theorem considerFollowers_offered (represents : dictionary.Represents vocabulary)
    (bigrams : List Bigram) : ∀ shortlist, dictionary.considerFollowers bigrams shortlist =
      pure (shortlist.addAll ((bigrams.filter fun bigram => vocabulary.offers bigram.target).map
        fun bigram => ⟨bigram.target, bigram.probability⟩)) := by
  induction bigrams with
  | nil => exact fun _ => rfl
  | cons bigram bigrams ih =>
      intro shortlist
      rw [considerFollowers, represents.probability, pure_bind, ih]
      cases offered : vocabulary.offers bigram.target with
      | false =>
          rw [if_pos ((represents.probability_eq_iff _).mpr offered), List.filter_cons, offered,
            if_neg Bool.false_ne_true]
      | true =>
          rw [if_neg (represents.probability_ne offered), List.filter_cons, if_pos offered]
          rfl

/-- Nothing follows a word that is not there. -/
theorem followers_eq_nil (represents : dictionary.Represents vocabulary) {previous : Word}
    (absent : previous ∉ vocabulary.spelled) : vocabulary.followers previous = [] := by
  have none : vocabulary.bigramsOf previous = [] := by
    refine List.eq_nil_iff_forall_not_mem.mpr fun bigram among => ?_
    obtain ⟨low, _, place, _⟩ := represents.content.related (mem_bigramsOf.mp among).2
    rw [placeIn_eq_none.mpr absent] at place
    cases place
  rw [← followers_eq, none]
  rfl

/-- They are told by the queries for single words: those that have a probability, and one of following the
word. -/
theorem followers_asked (represents : dictionary.Represents vocabulary) (previous : Word) :
    vocabulary.followers previous = vocabulary.spelled.filterMap fun word =>
      if (dictionary.probability word).value = noProbability ∨
          (dictionary.bigramProbability previous word).value = noProbability then none
      else some ⟨word, (dictionary.bigramProbability previous word).value⟩ := by
  rw [Vocabulary.followers]
  refine List.filterMap_congr fun word _ => ?_
  rw [represents.probability, represents.bigramProbability, Reading.value_pure, Reading.value_pure,
    likelihood, Vocabulary.bigramProbability]
  cases offered : vocabulary.offers word with
  | false =>
      rw [if_neg Bool.false_ne_true, if_pos (.inl ((represents.probability_eq_iff word).mpr offered))]
  | true =>
      have counts : vocabulary.probability word ≠ noProbability := represents.probability_ne offered
      rw [if_pos rfl]
      cases related : vocabulary.bigrams[(previous, word)]? with
      | none => exact (if_pos (.inr rfl)).symm
      | some record =>
          have known := ne_noProbability (represents.content.storableBigram related).probability
          exact (if_neg (not_or.mpr ⟨counts, known⟩)).symm

/-- Predictions add the words that follow and are offered. -/
theorem predict_eq (represents : dictionary.Represents vocabulary) (previous : Word)
    (shortlist : Shortlist) :
    dictionary.predict previous shortlist =
      pure (shortlist.addAll (vocabulary.followers previous)) := by
  rw [Dictionary.predict]
  split
  next empty =>
    have absent : previous ∉ vocabulary.spelled := fun member =>
      (represents.content.storable_word member).1 (List.isEmpty_iff.mp empty)
    rw [represents.followers_eq_nil absent]
    rfl
  next =>
    rw [represents.property, pure_bind, Vocabulary.property]
    cases known : vocabulary.unigram? previous with
    | none =>
        rw [represents.followers_eq_nil (unigram?_eq_none.mp known)]
        rfl
    | some unigram =>
        rw [← followers_eq]
        exact represents.considerFollowers_offered _ shortlist

end Represents

namespace Chronicle

variable {dictionary : Dictionary} {vocabulary : Vocabulary} {places : List (Word × Nat)}

/-- Predictions into a new shortlist add the words that follow, and damage has no part in it. -/
theorem predict_new (chronicle : Chronicle dictionary vocabulary places) (previous : Word)
    (limit : Nat) : dictionary.predict previous (.new limit) =
      pure ((Shortlist.new limit).addAll (vocabulary.followers previous)) := by
  rw [← predict_cleared]
  exact chronicle.cleared.predict_eq previous (.new limit)

/-- Predictions list exactly the live followers.  Into a new shortlist they put the best of all words
that follow the given one now and are neither flagged as no words nor blacklisted, each with the
probability that is known now: first those that follow with a larger probability, and of those with the
same the one whose word was added first.  Nothing follows a word that is empty or not there.  Neither
what was overwritten or removed, nor compaction or reopening matters: another dictionary, with another
history, predicts the same if it knows the same words in the same order, offers the same ones and has
the same probabilities for what follows. -/
theorem predict_followers (chronicle : Chronicle dictionary vocabulary places) (previous : Word)
    (limit : Nat) :
    ∃ ranked : List Candidate,
      dictionary.predict previous (.new limit) = pure ⟨limit, ranked.take limit⟩ ∧
      (∀ word score, ⟨word, score⟩ ∈ ranked ↔
        vocabulary.likelihood previous word = some score ∧
          ∃ unigram, vocabulary.unigram? word = some unigram ∧
            unigram.notAWord = false ∧ unigram.blacklisted = false) ∧
      (ranked.Pairwise fun first second => second.score < first.score ∨
        first.score = second.score ∧
          vocabulary.spelled.idxOf first.word < vocabulary.spelled.idxOf second.word) ∧
      (previous = [] ∨ previous ∉ vocabulary.spelled → ranked = []) ∧
      ∀ (other : Dictionary) (known : Vocabulary) (elsewhere : List (Word × Nat)),
        Chronicle other known elsewhere → known.spelled = vocabulary.spelled →
          (∀ word, known.offers word = vocabulary.offers word) →
          (∀ word, known.likelihood previous word = vocabulary.likelihood previous word) →
          other.predict previous (.new limit) = dictionary.predict previous (.new limit) := by
  refine ⟨Shortlist.ranking (vocabulary.followers previous), ?_, fun word score => ?_,
    Shortlist.pairwise_ranking_stable (pairwise_followers chronicle.represents.distinct previous),
    fun nowhere => ?_, ?_⟩
  · rw [chronicle.predict_new]
    exact congrArg pure (Shortlist.addAll_clear (.new limit) _)
  · rw [← offers_iff, ← mem_followers]
    exact (List.mergeSort_perm _ _).mem_iff
  · have absent : previous ∉ vocabulary.spelled := by
      rcases nowhere with rfl | absent
      · exact fun member => (chronicle.represents.storable_word member).1 rfl
      · exact absent
    rw [chronicle.cleared.followers_eq_nil absent, Shortlist.ranking, List.mergeSort_nil]
  · intro other known elsewhere history spelled offered likely
    have same : known.followers previous = vocabulary.followers previous := by
      rw [Vocabulary.followers, Vocabulary.followers, spelled]
      simp only [offered, likely]
    rw [history.predict_new, chronicle.predict_new, same]

/-- The first word is followed by the second one with a large probability, by the fourth one and by the
third one, which is blacklisted afterwards.  The first relation is then removed and added again, with the
probability of the second one. -/
def wavering : List Operation :=
  [.request (.addUnigram [97] { probability := 1 }),
    .request (.addUnigram [98] { probability := 2 }),
    .request (.addBigram [97] { target := [98], probability := 8 }),
    .request (.addUnigram [99] { probability := 3 }),
    .request (.addUnigram [100] { probability := 4 }),
    .request (.addBigram [97] { target := [100], probability := 5 }),
    .request (.addBigram [97] { target := [99], probability := 9 }),
    .request (.addUnigram [99] { probability := 3, blacklisted := true }),
    .request (.removeBigram [97] [98]),
    .request (.addBigram [97] { target := [98], probability := 5 })]

/-- The word whose relation was added last comes first, as it was the first word, also in what is opened
from an image that was compacted. -/
theorem predict_followers_wavering :
    ∃ opened, Chronicle (reached .standard wavering) (taught .standard wavering) [] ∧
      Chronicle opened (taught .standard wavering) [] ∧
      (∃ ranked : List Candidate, ranked.take 2 = [⟨[98], 5⟩, ⟨[100], 5⟩] ∧
        ∀ word score, ⟨word, score⟩ ∈ ranked ↔
          (taught .standard wavering).likelihood [97] word = some score ∧
            ∃ unigram, (taught .standard wavering).unigram? word = some unigram ∧
              unigram.notAWord = false ∧ unigram.blacklisted = false) ∧
      opened.predict [97] (.new 2) = pure ⟨2, [⟨[98], 5⟩, ⟨[100], 5⟩]⟩ := by
  have chronicle := chronicle_reached .standard wavering
  have predicted : (reached .standard wavering).predict [97] (.new 2) =
      pure ⟨2, [⟨[98], 5⟩, ⟨[100], 5⟩]⟩ := by
    rw [chronicle.predict_new, chronicle.cleared.followers_asked]
    decide +kernel
  have fits : (reached .standard wavering).header.Storable := by
    rw [header_reached]
    exact ⟨by decide, by decide, nofun, nofun⟩
  have quiet : ∀ (session : Session) (vocabulary : Vocabulary),
      session.learnAll vocabulary [.flushCompacted .empty "m"] = vocabulary := fun _ _ => rfl
  obtain ⟨opened, again⟩ := chronicle.exists_opened fits [.flushCompacted .empty "m"]
  rw [quiet] at again
  obtain ⟨ranked, best, members, _, _, elsewhere⟩ := chronicle.predict_followers [97] 2
  refine ⟨opened, chronicle, again, ⟨ranked, ?_, members⟩, ?_⟩
  · exact congrArg (fun reading => reading.value.candidates) (best.symm.trans predicted)
  · rw [elsewhere opened _ [] again rfl (fun _ => rfl) fun _ => rfl, predicted]

end Chronicle

end Dictionary

end Lexicon

/-
Module: Lexicon.Proofs.Dictionary.Conversion
Layer: Proofs
Purpose: What is left of a vocabulary when it is taken from one format to another: all of it, but for
  the histories, which only pass from one format with history to another one.
Imports: Lexicon.Proofs.Dictionary.Replay
Trusted boundary: none
Main exports: History.carried, WordProperty.carried, Vocabulary.converted,
  Content.Represents.property_converted, Content.Represents.converted_self
-/
import Lexicon.Proofs.Dictionary.Replay

namespace Lexicon

open Vocabulary

/-! ### Taking things from one format to another -/

/-- What is left of a history. -/
def History.carried (source target : FormatVersion) (history : History) : History :=
  if source.hasHistory && target.hasHistory then history else .unknown

/-- What is left of what is known about a word by itself. -/
def Unigram.carried (source target : FormatVersion) (unigram : Unigram) : Unigram :=
  { unigram with history := unigram.history.carried source target }

/-- What is left of what is known about a follower. -/
def Bigram.carried (source target : FormatVersion) (bigram : Bigram) : Bigram :=
  { bigram with history := bigram.history.carried source target }

/-- What is left of all that is known about a word. -/
def WordProperty.carried (source target : FormatVersion) (property : WordProperty) : WordProperty :=
  { property with
    unigram := property.unigram.carried source target
    bigrams := property.bigrams.map (Bigram.carried source target) }

/-- What the one format kept, and the other one keeps, is left. -/
theorem History.carried_of_kept {source : FormatVersion} {history : History}
    (kept : history.kept source = history) (target : FormatVersion) :
    history.carried source target = history.kept target := by
  rw [History.carried, History.kept]
  cases source with
  | historical => rfl
  | plain =>
      rw [← kept]
      exact (ite_self _).symm

namespace Vocabulary

/-- What is left of a vocabulary in a format. -/
def converted (vocabulary : Vocabulary) (version : FormatVersion) : Vocabulary :=
  ⟨vocabulary.words.map fun entry => (entry.1, entry.2.kept version),
    relations version vocabulary.pairs⟩

variable {vocabulary : Vocabulary} {version : FormatVersion}

theorem spelled_words (words : List (Word × Unigram)) (version : FormatVersion) :
    (words.map fun entry => (entry.1, entry.2.kept version)).map (·.1) = words.map (·.1) :=
  List.map_map.trans rfl

/-- The words stay, in their order. -/
@[simp] theorem spelled_converted : (vocabulary.converted version).spelled = vocabulary.spelled :=
  spelled_words vocabulary.words version

theorem unigram?_converted (word : Word) :
    (vocabulary.converted version).unigram? word =
      (vocabulary.unigram? word).map (Unigram.kept version) := by
  rw [unigram?, unigram?, converted, List.find?_map, Option.map_map, Option.map_map]
  rfl

end Vocabulary

namespace Content.Represents

variable {content : Content} {source : FormatVersion} {vocabulary : Vocabulary}

theorem bigramsOf_converted (represents : content.Represents source vocabulary)
    (target : FormatVersion) (word : Word) :
    (vocabulary.converted target).bigramsOf word =
      (vocabulary.bigramsOf word).map (Bigram.carried source target) := by
  rw [bigramsOf, bigramsOf, spelled_converted, List.map_filterMap]
  apply List.filterMap_congr
  intro follower _
  rw [converted, represents.getElem?_relations_pairs]
  cases known : vocabulary.bigrams[(word, follower)]? with
  | none => rfl
  | some record =>
      have kept := (represents.storableBigram known).history
      simp only [Option.map_some, Bigram.carried, History.carried_of_kept kept, BigramRecord.kept]

/-- All that is known about a word is taken over, but for histories. -/
theorem property_converted (represents : content.Represents source vocabulary)
    (target : FormatVersion) (word : Word) :
    (vocabulary.converted target).property word =
      (vocabulary.property word).map (WordProperty.carried source target) := by
  rw [property, property, unigram?_converted, represents.bigramsOf_converted]
  cases known : vocabulary.unigram? word with
  | none => rfl
  | some unigram =>
      have among := (unigram?_eq_some represents.distinct).mp known
      have kept : unigram.history.kept source = unigram.history :=
        congrArg Unigram.history (represents.storable among).2.2
      simp only [Option.map_some, WordProperty.carried, Unigram.carried, Unigram.kept,
        History.carried_of_kept kept]

/-- In its own format all of a vocabulary is left. -/
theorem converted_self (represents : content.Represents source vocabulary) :
    vocabulary.converted source = vocabulary := by
  have words : vocabulary.words.map (fun entry => (entry.1, entry.2.kept source)) =
      vocabulary.words := by
    conv_rhs => rw [← List.map_id vocabulary.words]
    apply List.map_congr_left
    intro entry among
    rw [(represents.storable (show (entry.1, entry.2) ∈ vocabulary.words from among)).2.2]
    rfl
  rw [converted, words, represents.relations_pairs]

end Content.Represents

end Lexicon

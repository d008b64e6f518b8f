/-
Module: Lexicon.Proofs.Dictionary.Rehearsal
Layer: Proofs
Purpose: A dictionary to which words, and then bigrams, were only added in the order in which a
  compaction adds them takes at least the bytes that the compaction takes, and so can be compacted.
Imports: Lexicon.Proofs.Dictionary.Imprint, Lexicon.Proofs.Dictionary.Slimness
Trusted boundary: none
Main exports: Content.Represents.pairs_relations, Dictionary.Rehearsed, Dictionary.Proceeds,
  Dictionary.Rehearsed.addUnigram, Dictionary.Rehearsed.addBigram,
  Dictionary.Rehearsed.flushCompacted
-/
import Lexicon.Proofs.Dictionary.Imprint
import Lexicon.Proofs.Dictionary.Slimness

namespace Lexicon

open Vocabulary
open Forest (Slimmer)
open Mutation (Both)

/-! ### Vocabularies that grow in order -/

/-- What a format keeps of a bigram. -/
def Bigram.kept (version : FormatVersion) (bigram : Bigram) : Bigram :=
  { bigram with history := bigram.history.kept version }

@[simp] theorem Bigram.encode_kept (version : FormatVersion) (bigram : Bigram) :
    (bigram.kept version).encode version = bigram.encode version := by
  simp [encode, kept]

@[simp] theorem Bigram.record_kept (version : FormatVersion) (bigram : Bigram) :
    (bigram.kept version).record version = bigram.record version := by
  simp [record, kept]

namespace Vocabulary

/-- Where nothing is known of two words, there is nothing to list. -/
theorem pairs_of_words (words : List (Word × Unigram)) : (Vocabulary.mk words ∅).pairs = [] := by
  have none : ∀ word, (Vocabulary.mk words ∅).bigramsOf word = [] := by
    intro word
    simp [bigramsOf]
  simp [pairs, none]

/-- What a format keeps of a bigram of a word, if that is among some bigrams. -/
def keptAmong (version : FormatVersion) (pairs : List (Word × Bigram)) (word : Word)
    (bigram : Bigram) : Option Bigram :=
  if (word, bigram.target) ∈ pairs.map ends then some (bigram.kept version) else none

theorem keptAmong_of_mem (version : FormatVersion) {pairs : List (Word × Bigram)}
    {pair : Word × Bigram} (member : pair ∈ pairs) :
    keptAmong version pairs pair.1 pair.2 = some (pair.2.kept version) :=
  if_pos (List.mem_map.mpr ⟨pair, member, rfl⟩)

end Vocabulary

namespace Content.Represents

variable {content : Content} {source : FormatVersion} {vocabulary : Vocabulary}
  {done rest : List (Word × Bigram)} {words : List (Word × Unigram)}

/-- Of the bigrams of a word those are listed that are among the first ones of a vocabulary, where
only these are put together. -/
theorem bigramsOf_relations (represents : content.Represents source vocabulary)
    (split : vocabulary.pairs = done ++ rest) (spelled : words.map (·.1) = vocabulary.spelled)
    (target : FormatVersion) (word : Word) :
    (Vocabulary.mk words (relations target done)).bigramsOf word =
      (vocabulary.bigramsOf word).filterMap (keptAmong target done word) := by
  have distinct := nodup_pairs represents.distinct
  rw [split, List.map_append, List.nodup_append] at distinct
  rw [bigramsOf, bigramsOf, List.filterMap_filterMap,
    show (Vocabulary.mk words (relations target done)).spelled = vocabulary.spelled from spelled]
  refine List.filterMap_congr fun follower _ => ?_
  by_cases among : (word, follower) ∈ done.map ends
  · obtain ⟨⟨first, bigram⟩, member, same⟩ := List.mem_map.mp among
    cases same
    have whole : (first, bigram) ∈ vocabulary.pairs := split ▸ List.mem_append_left rest member
    have known := (mem_bigramsOf.mp (mem_pairs.mp whole).2).2
    have found := getElem?_relations target distinct.1 member
    rw [ends] at found
    dsimp only at found ⊢
    rw [found, known]
    exact (keptAmong_of_mem target member).symm
  · have missing : (relations target done)[(word, follower)]? = none :=
      Std.ExtHashMap.getElem?_eq_none fun member => among (mem_relations.mp member)
    rw [missing]
    cases vocabulary.bigrams[(word, follower)]? with
    | none => rfl
    | some record => exact (if_neg among).symm

/-- The first bigrams of a vocabulary, put together in some format, are listed in the same order. -/
theorem pairs_relations (represents : content.Represents source vocabulary)
    (split : vocabulary.pairs = done ++ rest) (spelled : words.map (·.1) = vocabulary.spelled)
    (target : FormatVersion) :
    (Vocabulary.mk words (relations target done)).pairs =
      done.map fun pair => (pair.1, pair.2.kept target) := by
  have distinct := nodup_pairs represents.distinct
  rw [split, List.map_append, List.nodup_append] at distinct
  have all : (Vocabulary.mk words (relations target done)).pairs =
      vocabulary.pairs.filterMap fun pair => (keptAmong target done pair.1 pair.2).map fun bigram =>
        (pair.1, bigram) := by
    rw [pairs, pairs, List.filterMap_flatMap,
      show (Vocabulary.mk words (relations target done)).spelled = vocabulary.spelled from spelled]
    refine List.flatMap_congr fun word _ => ?_
    rw [represents.bigramsOf_relations split spelled, List.map_filterMap, List.filterMap_map]
    rfl
  have first : done.filterMap (fun pair => (keptAmong target done pair.1 pair.2).map fun bigram =>
      (pair.1, bigram)) = done.map fun pair => (pair.1, pair.2.kept target) := by
    rw [← List.filterMap_eq_map]
    refine List.filterMap_congr fun pair member => ?_
    rw [keptAmong_of_mem target member]
    rfl
  have others : rest.filterMap (fun pair => (keptAmong target done pair.1 pair.2).map fun bigram =>
      (pair.1, bigram)) = [] := by
    refine List.filterMap_eq_nil_iff.mpr fun pair member => ?_
    have outside : (pair.1, pair.2.target) ∉ done.map ends := fun among =>
      distinct.2.2 _ among _ (List.mem_map.mpr ⟨pair, member, rfl⟩) rfl
    rw [keptAmong, if_neg outside]
    rfl
  rw [all, split, List.filterMap_append, first, others, List.append_nil]

end Content.Represents

namespace Dictionary

/-! ### Filling in one more -/

/-- What a format does not keep of a unigram makes no difference to adding it. -/
theorem apply_addUnigram_kept (dictionary : Dictionary) (word : Word) (unigram : Unigram) :
    (addUnigram word (unigram.kept dictionary.version)).apply dictionary =
      (addUnigram word unigram).apply dictionary := by
  have checked : checkUnigram word (unigram.kept dictionary.version) = checkUnigram word unigram :=
    rfl
  rw [addUnigram, addUnigram, Mutation.apply_bind_ok (Mutation.apply_get dictionary),
    Mutation.apply_bind_ok (Mutation.apply_get dictionary), checked, Unigram.encode_kept]

/-- Nor does what it does not keep of a bigram. -/
theorem apply_addBigram_kept (dictionary : Dictionary) (word : Word) (bigram : Bigram) :
    (addBigram word (bigram.kept dictionary.version)).apply dictionary =
      (addBigram word bigram).apply dictionary := by
  have checked : checkBigram word (bigram.kept dictionary.version) = checkBigram word bigram := rfl
  have target : (bigram.kept dictionary.version).target = bigram.target := rfl
  rw [addBigram, addBigram, Mutation.apply_bind_ok (Mutation.apply_get dictionary),
    Mutation.apply_bind_ok (Mutation.apply_get dictionary), checked, target, Bigram.encode_kept]

/-- Where there are no bigrams, a last word is filled in last. -/
theorem fill_word_concat (words : List (Word × Unigram)) (word : Word) (unigram : Unigram) :
    fill ⟨words ++ [(word, unigram)], ∅⟩ =
      fill ⟨words, ∅⟩ >>= fun _ => addUnigram word unigram := by
  rw [fill, fill, pairs_of_words, pairs_of_words, List.forM_eq_forM, List.forM_append]
  simp

/-- A last bigram is filled in last. -/
theorem fill_pair_concat {vocabulary next : Vocabulary} {word : Word} {bigram : Bigram}
    (words : next.words = vocabulary.words)
    (pairs : next.pairs = vocabulary.pairs ++ [(word, bigram)]) :
    fill next = fill vocabulary >>= fun _ => addBigram word bigram := by
  rw [fill, fill, words, pairs, bind_assoc, List.forM_eq_forM, List.forM_eq_forM,
    List.forM_append]
  simp

/-- What is left when all that a dictionary says was filled into an empty one. -/
theorem Represents.changed_of_fill {dictionary fresh : Dictionary} {vocabulary : Vocabulary}
    (represents : dictionary.Represents vocabulary)
    (filled : (fill vocabulary).apply (empty dictionary.header dictionary.configuration) =
      (.ok (), fresh)) :
    Changed (empty dictionary.header dictionary.configuration) fresh vocabulary
      (roomFor (additions dictionary.version vocabulary)) := by
  obtain ⟨answer, after, spec⟩ := fills_additions represents.content
    (represents_empty dictionary.header dictionary.configuration) rfl
  have applied := spec.applied
  rw [← fill_eq, filled] at applied
  cases applied
  exact spec.changed rfl

/-! ### Where less room was taken -/

theorem Level.usedBytes_le {lean fat : Dictionary} (level : Level Slimmer lean fat) :
    lean.usedBytes ≤ fat.usedBytes := by
  have words := level.words.slotCount_le
  have followers := level.followers.slotCount_le
  rw [usedBytes_eq, usedBytes_eq, level.terminals, level.records]
  omega

theorem afford_of_le {limits : Configuration} {less used requested : Nat} (lower : less ≤ used)
    (afforded : afford limits used requested = .ok ()) : afford limits less requested = .ok () := by
  rw [afford_eq_ok] at afforded ⊢
  omega

/-! ### Rehearsals -/

/-- Step by step, all that a dictionary says was filled into an empty one as well, with the same
limits; and that one takes no more room. -/
structure Rehearsed (dictionary : Dictionary) (vocabulary : Vocabulary) : Prop where
  represents : dictionary.Represents vocabulary
  updatable : dictionary.updatable = true
  filled : ∃ fresh,
    (fill vocabulary).apply (empty dictionary.header dictionary.configuration) = (.ok (), fresh) ∧
      Level Slimmer fresh dictionary

/-- A change of a dictionary is rehearsed, or refused for a lack of room or for a limit. -/
def Proceeds (change : Mutation Dictionary Unit) (dictionary : Dictionary) (next : Vocabulary) :
    Prop :=
  match change.apply dictionary with
  | (.ok (), after) => Rehearsed after next ∧ after.header = dictionary.header ∧
      after.configuration = dictionary.configuration
  | (.error error, _) => Exhausted dictionary.configuration error

namespace Rehearsed

variable {dictionary : Dictionary} {vocabulary next : Vocabulary}

theorem empty (header : Header) (configuration : Configuration) :
    Rehearsed (empty header configuration) {} :=
  ⟨represents_empty header configuration, rfl, _, rfl, rfl, rfl, rfl, .new, .new, rfl, rfl⟩

/-- What is decided by a limit and by room, and filled in last, is rehearsed if it is accepted: the
dictionary that takes less has the room, too. -/
theorem proceeds (rehearsed : Rehearsed dictionary vocabulary) {change : Mutation Dictionary Unit}
    {full : Prop} [Decidable full] {limit : Limit} {count requested : Nat}
    (last : fill next = fill vocabulary >>= fun _ => change)
    (decided : ∀ {other : Dictionary}, other.Represents vocabulary → other.terms = dictionary.terms →
      Decides (if full then .error (.limitReached limit count)
        else afford dictionary.configuration other.usedBytes requested) change other next requested)
    (both : ∀ {fresh : Dictionary}, Alike Slimmer fresh dictionary →
      Both (Level Slimmer) change change fresh dictionary) :
    Proceeds change dictionary next := by
  obtain ⟨fresh, filled, level⟩ := rehearsed.filled
  have made := rehearsed.represents.changed_of_fill filled
  have terms : fresh.terms = dictionary.terms := by
    rw [made.terms, Dictionary.terms, Dictionary.terms, rehearsed.updatable]
    rfl
  have decidedFresh := decided made.represents terms
  rw [Proceeds]
  rcases outcome : change.apply dictionary with ⟨answer, after⟩
  cases answer with
  | error error =>
      have here := decided rehearsed.represents rfl
      revert here
      generalize answer : (if full then _ else _ : Except Error Unit) = accepted
      intro here
      cases accepted with
      | error refused =>
          cases outcome.symm.trans here
          exact exhausted_of_full answer
      | ok =>
          obtain ⟨_, done, _⟩ := here
          cases outcome.symm.trans done
  | ok =>
      obtain ⟨accepted, changed⟩ := (decided rehearsed.represents rfl).made outcome
      split at accepted
      next => cases accepted
      next few =>
        -- What can be afforded here can be afforded where fewer bytes are in use.
        rw [if_neg few, afford_of_le level.usedBytes_le accepted] at decidedFresh
        obtain ⟨other, doneFresh, _⟩ := decidedFresh
        have alike : Alike Slimmer fresh dictionary :=
          .of_represents level made.represents rehearsed.represents
        obtain ⟨_, further⟩ := both alike _ _ _ _ doneFresh outcome
        refine ⟨⟨changed.represents, changed.updatable.trans rehearsed.updatable, other, ?_, further⟩,
          changed.header, changed.configuration⟩
        rw [last, changed.header, changed.configuration]
        exact (Mutation.apply_bind_ok filled _).trans doneFresh

/-- Words are added to a dictionary without bigrams. -/
theorem addUnigram {words : List (Word × Unigram)} (rehearsed : Rehearsed dictionary ⟨words, ∅⟩)
    {word : Word} {unigram : Unigram} (new : word ∉ words.map (·.1)) (storableWord : word.Storable)
    (storable : unigram.Storable) :
    Proceeds (addUnigram word unigram) dictionary
      ⟨words ++ [(word, unigram.kept dictionary.version)], ∅⟩ := by
  have unspelled : word ∉ (Vocabulary.mk words ∅).spelled := new
  have decides : ∀ {other : Dictionary}, other.Represents ⟨words, ∅⟩ →
      other.terms = dictionary.terms →
      Decides
        (if dictionary.configuration.maxUnigrams ≤ words.length then
          .error (.limitReached .unigrams dictionary.configuration.maxUnigrams)
        else afford dictionary.configuration other.usedBytes
          (unigramSize dictionary.version (unigram.kept dictionary.version) +
            (recordSize word + keyRoom word.length)))
        (Dictionary.addUnigram word (unigram.kept dictionary.version)) other
        ⟨words ++ [(word, unigram.kept dictionary.version)], ∅⟩
        (unigramSize dictionary.version (unigram.kept dictionary.version) +
          (recordSize word + keyRoom word.length)) := by
    intro other represents terms
    have decided := represents.decides_newUnigram terms rehearsed.updatable unspelled storableWord
      (storable.kept dictionary.version)
    rw [show dictionary.terms.version = dictionary.version from rfl, Unigram.kept_kept] at decided
    exact decided
  rw [Proceeds, ← apply_addUnigram_kept]
  exact rehearsed.proceeds (fill_word_concat words _ _) decides fun alike =>
    alike.addUnigram files_slimmer _ _

/-- Bigrams are added in the order in which they are listed. -/
theorem addBigram {content : Content} {source : FormatVersion}
    (known : content.Represents source vocabulary) {done rest : List (Word × Bigram)} {word : Word}
    {bigram : Bigram} (split : vocabulary.pairs = done ++ (word, bigram) :: rest)
    {words : List (Word × Unigram)} (spelled : words.map (·.1) = vocabulary.spelled)
    (rehearsed : Rehearsed dictionary ⟨words, relations dictionary.version done⟩) :
    Proceeds (addBigram word bigram) dictionary
      ⟨words, relations dictionary.version (done ++ [(word, bigram)])⟩ := by
  have distinct := nodup_pairs known.distinct
  obtain ⟨member, memberTarget, checked⟩ :=
    known.checkBigram_of_mem_pairs (show (word, bigram) ∈ vocabulary.pairs by rw [split]; simp)
  have new : (word, (bigram.kept dictionary.version).target) ∉ relations dictionary.version done :=
    notMem_relations_of_split distinct split _
  have there : (Vocabulary.mk words (relations dictionary.version done)).spelled =
      vocabulary.spelled := spelled
  have last : fill ⟨words, relations dictionary.version (done ++ [(word, bigram)])⟩ =
      fill ⟨words, relations dictionary.version done⟩ >>= fun _ =>
        Dictionary.addBigram word (bigram.kept dictionary.version) := by
    refine fill_pair_concat rfl ?_
    rw [known.pairs_relations split spelled,
      known.pairs_relations (List.append_cons done _ rest ▸ split) spelled, List.map_append,
      List.map_singleton]
  have decides : ∀ {other : Dictionary},
      other.Represents ⟨words, relations dictionary.version done⟩ →
      other.terms = dictionary.terms →
      Decides
        (if dictionary.configuration.maxBigrams ≤ (relations dictionary.version done).size then
          .error (.limitReached .bigrams dictionary.configuration.maxBigrams)
        else afford dictionary.configuration other.usedBytes
          (BigramRecord.size dictionary.version + keyRoom 2))
        (Dictionary.addBigram word (bigram.kept dictionary.version)) other
        ⟨words, relations dictionary.version (done ++ [(word, bigram)])⟩
        (BigramRecord.size dictionary.version + keyRoom 2) := by
    intro other represents terms
    have decided := represents.decides_newBigram terms rehearsed.updatable new (there.symm ▸ member)
      (there.symm ▸ memberTarget) checked
    rw [show dictionary.terms.version = dictionary.version from rfl, Bigram.record_kept] at decided
    rw [relations_concat]
    exact decided
  rw [Proceeds, ← apply_addBigram_kept]
  exact rehearsed.proceeds last decides fun alike => alike.addBigram files_slimmer _ _

/-- What was rehearsed is compacted, and written wherever a file can be.  The dictionary that is
opened from the file within the same limits is rehearsed, too. -/
theorem flushCompacted (rehearsed : Rehearsed dictionary vocabulary)
    (fits : dictionary.header.Storable) {directory : Directory} {name : String}
    (writable : directory.Writable name) :
    ∃ after written opened, dictionary.flushCompacted directory name = (.ok (), after, written) ∧
      written.Writable name ∧
      openFile written name 0 0 true dictionary.configuration = .ok opened ∧
      opened.header = dictionary.header ∧ opened.configuration = dictionary.configuration ∧
      Rehearsed opened vocabulary := by
  obtain ⟨fresh, filled, level⟩ := rehearsed.filled
  have made := rehearsed.represents.changed_of_fill filled
  have kept := lasting_sturdy.fill dictionary.header vocabulary
    (Dictionary.empty dictionary.header dictionary.configuration) ⟨rfl, lasting_sturdy.empty _⟩
  rw [show ((fill vocabulary).run.run _).2 = fresh from congrArg Prod.snd filled] at kept
  obtain ⟨image, encoded⟩ := kept.content.exists_encode fits
  have some : image ≠ [] := by
    obtain ⟨_, _, _, _, rfl, _⟩ := Image.exists_parts encoded
    exact nofun
  obtain ⟨written, replaced⟩ := writable image.toByteArray
  have mapped := Directory.mapFile_of_replaceFile replaced
  have accepts : dictionary.checkUpdatable = .ok () := by
    rw [checkUpdatable, if_pos rehearsed.updatable]
  have compacted := rehearsed.represents.compact_eq
  rw [filled] at compacted
  have flushed : ({ dictionary with content := fresh.content, superseded := 0 } :
      Dictionary).flush directory name = (.ok (), written) :=
    flush_of_replaceFile rehearsed.updatable encoded replaced
  have represents := made.represents.content
  rw [Dictionary.version, kept.headed] at represents
  refine ⟨_, written, _, flushCompacted_eq_ok.mpr ⟨accepts, compacted, flushed⟩,
    Directory.writable_of_replaceFile replaced,
    openFile_whole some mapped (kept.content.decode encoded) true dictionary.configuration, rfl, rfl,
    ⟨represents.copy ⟨rfl, rfl, rfl, rfl, rfl, rfl⟩, rfl⟩, rfl, fresh, filled, ?_⟩
  exact ⟨kept.headed.symm, rfl, rfl, level.words.self.reloaded, level.followers.self.reloaded, rfl,
    rfl⟩

end Rehearsed

end Dictionary

end Lexicon

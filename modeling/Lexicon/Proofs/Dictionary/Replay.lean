/-
Module: Lexicon.Proofs.Dictionary.Replay
Layer: Proofs
Purpose: Compacting a dictionary that represents a vocabulary fills an empty one with the vocabulary,
  and is refused only where that is.
Imports: Lexicon.Proofs.Dictionary.Relations, Lexicon.Proofs.Dictionary.Walk
Trusted boundary: none
Main exports: Vocabulary.pairs, Dictionary.fill, Dictionary.Represents.replay_eq,
  Dictionary.Represents.compact_eq
-/
import Lexicon.Proofs.Dictionary.Relations
import Lexicon.Proofs.Dictionary.Walk

namespace Lexicon

open Vocabulary

/-! ### The bigrams of a vocabulary as a list -/

namespace Vocabulary

/-- All bigrams with their first words, in the order of the first words and then of the targets. -/
def pairs (vocabulary : Vocabulary) : List (Word × Bigram) :=
  vocabulary.spelled.flatMap fun word =>
    (vocabulary.bigramsOf word).map fun bigram => (word, bigram)

/-- The words of a bigram. -/
def ends (pair : Word × Bigram) : Word × Word := (pair.1, pair.2.target)

/-- The bigrams of a list, later ones in the place of earlier ones. -/
def relations (version : FormatVersion) (pairs : List (Word × Bigram)) :
    Std.ExtHashMap (Word × Word) BigramRecord :=
  pairs.foldl (fun known pair => known.insert (ends pair) (pair.2.record version)) ∅

theorem relations_concat (version : FormatVersion) (pairs : List (Word × Bigram))
    (pair : Word × Bigram) :
    relations version (pairs ++ [pair]) =
      (relations version pairs).insert (ends pair) (pair.2.record version) := by
  rw [relations, List.foldl_concat]
  rfl

theorem mem_relations {version : FormatVersion} {pairs : List (Word × Bigram)}
    {words : Word × Word} : words ∈ relations version pairs ↔ words ∈ pairs.map ends := by
  induction pairs using List.reverseRecOn with
  | nil => simp [relations]
  | append_singleton pairs pair ih =>
      rw [relations_concat, Std.ExtHashMap.mem_insert, ih, List.map_append, List.mem_append,
        List.map_singleton, List.mem_singleton, beq_iff_eq]
      constructor
      · rintro (same | before)
        · exact Or.inr same.symm
        · exact Or.inl before
      · rintro (before | same)
        · exact Or.inr before
        · exact Or.inl same.symm

/-- A word is none of those listed before it. -/
theorem notMem_spelled_of_split {vocabulary : Vocabulary} (distinct : vocabulary.spelled.Nodup)
    {done rest : List (Word × Unigram)} {entry : Word × Unigram}
    (split : vocabulary.words = done ++ entry :: rest)
    (bigrams : Std.ExtHashMap (Word × Word) BigramRecord) :
    entry.1 ∉ (Vocabulary.mk done bigrams).spelled := by
  rw [spelled, split, List.map_append, List.map_cons, List.nodup_append] at distinct
  exact fun member => distinct.2.2 _ member _ List.mem_cons_self rfl

/-- No bigram that is listed before another one has the same words. -/
theorem notMem_relations_of_split {pairs done rest : List (Word × Bigram)} {pair : Word × Bigram}
    (distinct : (pairs.map ends).Nodup) (split : pairs = done ++ pair :: rest)
    (version : FormatVersion) : ends pair ∉ relations version done := by
  rw [split, List.map_append, List.map_cons, List.nodup_append] at distinct
  exact fun before => distinct.2.2 _ (mem_relations.mp before) _ List.mem_cons_self rfl

theorem size_relations (version : FormatVersion) {pairs : List (Word × Bigram)}
    (distinct : (pairs.map ends).Nodup) : (relations version pairs).size = pairs.length := by
  induction pairs using List.reverseRecOn with
  | nil => simp [relations]
  | append_singleton pairs pair ih =>
      have new := notMem_relations_of_split distinct
        (show pairs ++ [pair] = pairs ++ pair :: [] from rfl) version
      rw [List.map_append, List.nodup_append] at distinct
      rw [relations_concat, Std.ExtHashMap.size_insert, if_neg new, ih distinct.1,
        List.length_append, List.length_singleton]

/-- Where no two bigrams have the same words, each of them is known. -/
theorem getElem?_relations (version : FormatVersion) {pairs : List (Word × Bigram)}
    (distinct : (pairs.map ends).Nodup) {pair : Word × Bigram} (member : pair ∈ pairs) :
    (relations version pairs)[ends pair]? = some (pair.2.record version) := by
  induction pairs using List.reverseRecOn with
  | nil => cases member
  | append_singleton pairs last ih =>
      rw [List.map_append, List.map_singleton, List.nodup_append] at distinct
      rw [relations_concat, Std.ExtHashMap.getElem?_insert]
      rcases List.mem_append.mp member with before | only
      · have differ : ends last ≠ ends pair := by
          intro same
          exact distinct.2.2 _ (List.mem_map.mpr ⟨pair, before, rfl⟩) _ (List.mem_singleton.mpr rfl)
            same.symm
        simp only [beq_iff_eq, differ, if_false]
        exact ih distinct.1 before
      · rw [List.mem_singleton.mp only]
        simp only [beq_self_eq_true, if_true]

theorem mem_bigramsOf {vocabulary : Vocabulary} {word : Word} {bigram : Bigram} :
    bigram ∈ vocabulary.bigramsOf word ↔ bigram.target ∈ vocabulary.spelled ∧
      vocabulary.bigrams[(word, bigram.target)]? = some ⟨bigram.probability, bigram.history⟩ := by
  rw [bigramsOf, List.mem_filterMap]
  constructor
  · rintro ⟨target, member, has⟩
    obtain ⟨record, known, rfl⟩ := Option.map_eq_some_iff.mp has
    exact ⟨member, known⟩
  · rintro ⟨member, known⟩
    refine ⟨bigram.target, member, ?_⟩
    rw [known]
    rfl

theorem mem_pairs {vocabulary : Vocabulary} {word : Word} {bigram : Bigram} :
    (word, bigram) ∈ vocabulary.pairs ↔ word ∈ vocabulary.spelled ∧
      bigram ∈ vocabulary.bigramsOf word := by
  simp only [pairs, List.mem_flatMap, List.mem_map, Prod.mk.injEq]
  constructor
  · rintro ⟨first, member, other, among, rfl, rfl⟩
    exact ⟨member, among⟩
  · rintro ⟨member, among⟩
    exact ⟨word, member, bigram, among, rfl, rfl⟩

/-- No two bigrams of a vocabulary have the same words. -/
theorem nodup_pairs {vocabulary : Vocabulary} (distinct : vocabulary.spelled.Nodup) :
    (vocabulary.pairs.map ends).Nodup := by
  rw [List.Nodup, List.pairwise_map, pairs, List.pairwise_flatMap]
  refine ⟨?_, ?_⟩
  · intro word _
    rw [List.pairwise_map, bigramsOf, List.pairwise_filterMap]
    refine distinct.imp ?_
    rintro first second differ bigram here other there same
    obtain ⟨_, _, rfl⟩ := Option.map_eq_some_iff.mp here
    obtain ⟨_, _, rfl⟩ := Option.map_eq_some_iff.mp there
    exact differ (congrArg Prod.snd same)
  · refine distinct.imp ?_
    rintro first second differ pair here other there same
    obtain ⟨_, _, rfl⟩ := List.mem_map.mp here
    obtain ⟨_, _, rfl⟩ := List.mem_map.mp there
    exact differ (congrArg Prod.fst same)

end Vocabulary

namespace Content.Represents

variable {content : Content} {version : FormatVersion} {vocabulary : Vocabulary}

/-- The bigrams of a vocabulary, put together in some format, are what that format keeps of them. -/
theorem getElem?_relations_pairs (represents : content.Represents version vocabulary)
    (target : FormatVersion) (words : Word × Word) :
    (relations target vocabulary.pairs)[words]? =
      (vocabulary.bigrams[words]?).map (BigramRecord.kept target) := by
  obtain ⟨first, second⟩ := words
  have distinct := nodup_pairs represents.distinct
  cases known : vocabulary.bigrams[(first, second)]? with
  | none =>
      have missing : (first, second) ∉ relations target vocabulary.pairs := by
        intro member
        obtain ⟨⟨word, bigram⟩, among, same⟩ := List.mem_map.mp (mem_relations.mp member)
        cases same
        rw [(mem_bigramsOf.mp (mem_pairs.mp among).2).2] at known
        cases known
      exact Std.ExtHashMap.getElem?_eq_none missing
  | some record =>
      obtain ⟨low, high, placeFirst, placeSecond, _⟩ := represents.related known
      have memberFirst : first ∈ vocabulary.spelled := isSome_placeIn.mp (by rw [placeFirst]; rfl)
      have memberSecond : second ∈ vocabulary.spelled := isSome_placeIn.mp (by rw [placeSecond]; rfl)
      have among : (first, Bigram.mk second record.probability record.history) ∈ vocabulary.pairs :=
        mem_pairs.mpr ⟨memberFirst, mem_bigramsOf.mpr ⟨memberSecond, known⟩⟩
      exact getElem?_relations target distinct among

/-- The bigrams of a vocabulary are what is known about its words. -/
theorem relations_pairs (represents : content.Represents version vocabulary) :
    relations version vocabulary.pairs = vocabulary.bigrams := by
  apply Std.ExtHashMap.ext_getElem?
  rintro ⟨first, second⟩
  rw [represents.getElem?_relations_pairs]
  cases known : vocabulary.bigrams[(first, second)]? with
  | none => rfl
  | some record =>
      rw [Option.map_some, BigramRecord.kept, (represents.storableBigram known).history]

/-- There are as many of them as are known. -/
theorem length_pairs (represents : content.Represents version vocabulary) :
    vocabulary.pairs.length = vocabulary.bigrams.size := by
  rw [← size_relations version (nodup_pairs represents.distinct), represents.relations_pairs]

end Content.Represents

/-! ### Replaying is filling -/

namespace Compaction

variable {α β : Type}

/-- Changes of the dictionary that is being filled are made one after the other. -/
theorem onFresh_bind (first : Mutation Dictionary α) (next : α → Mutation Dictionary β) :
    onFresh (first >>= next) = onFresh first >>= fun value => onFresh (next value) := by
  funext compaction
  show (onFresh (first >>= next)).apply compaction =
    (onFresh first >>= fun value => onFresh (next value)).apply compaction
  rw [Mutation.apply_bind, onFresh, onFresh, Mutation.apply_onPart, Mutation.apply_onPart,
    Mutation.apply_bind]
  generalize first.apply compaction.fresh = outcome
  obtain ⟨answer, after⟩ := outcome
  cases answer with
  | error error => rfl
  | ok value => rfl

theorem onFresh_forM {items : List α} (add : α → Mutation Dictionary Unit) :
    items.forM (fun item => onFresh (add item)) = onFresh (items.forM add) := by
  induction items with
  | nil => rfl
  | cons item items ih =>
      show (onFresh (add item) >>= fun _ => items.forM fun item => onFresh (add item)) =
        onFresh (add item >>= fun _ => items.forM add)
      rw [onFresh_bind, ih]

/-- A reading without damage leaves the dictionary that is being read as it is. -/
theorem lift_pure (value : α) :
    (liftM (pure value : Reading α) : Mutation Compaction α) = pure value := by
  funext compaction
  obtain ⟨source, fresh⟩ := compaction
  show ((Except.ok value, _) : Except Error α × Compaction) = (Except.ok value, _)
  simp

end Compaction

/-- Doing something for each member of each list is doing it for the members of all lists. -/
theorem forM_flatMap {m : Type → Type} [Monad m] [LawfulMonad m] {α β : Type} (items : List α)
    (parts : α → List β) (visit : β → m Unit) :
    (items.flatMap parts).forM visit = items.forM fun item => (parts item).forM visit := by
  induction items with
  | nil => rfl
  | cons item items ih =>
      rw [List.flatMap_cons, List.forM_eq_forM, List.forM_append, ← List.forM_eq_forM, ih]
      rfl

/-- Doing the same for each member of a list is doing the same. -/
theorem forM_congr {m : Type → Type} [Monad m] {α : Type} {items : List α} {first second : α → m Unit}
    (same : ∀ item ∈ items, first item = second item) : items.forM first = items.forM second := by
  induction items with
  | nil => rfl
  | cons item items ih =>
      obtain ⟨here, there⟩ := List.forall_mem_cons.mp same
      show (first item >>= fun _ => items.forM first) = (second item >>= fun _ => items.forM second)
      rw [here, ih there]

namespace Dictionary

/-- Adds all words and then all bigrams of a vocabulary. -/
def fill (vocabulary : Vocabulary) : Mutation Dictionary Unit := do
  vocabulary.words.forM fun entry => addUnigram entry.1 entry.2
  vocabulary.pairs.forM fun pair => addBigram pair.1 pair.2

namespace Represents

variable {dictionary : Dictionary} {vocabulary : Vocabulary}

theorem replayUnigram_eq (represents : dictionary.Represents vocabulary) {word : Word}
    {unigram : Unigram} (member : (word, unigram) ∈ vocabulary.words) :
    dictionary.replayUnigram word = Compaction.onFresh (Dictionary.addUnigram word unigram) := by
  have known := (unigram?_eq_some represents.content.distinct).mpr member
  rw [replayUnigram, represents.property, Vocabulary.property, known, Option.map_some,
    Compaction.lift_pure, pure_bind]

theorem replayBigrams_eq (represents : dictionary.Represents vocabulary) {word : Word}
    (member : word ∈ vocabulary.spelled) :
    dictionary.replayBigrams word =
      (vocabulary.bigramsOf word).forM fun bigram =>
        Compaction.onFresh (Dictionary.addBigram word bigram) := by
  obtain ⟨token, place⟩ := Option.isSome_iff_exists.mp (isSome_placeIn.mpr member)
  rw [replayBigrams, represents.find, place, Compaction.lift_pure, pure_bind]
  dsimp only
  rw [represents.bigrams place, Compaction.lift_pure, pure_bind]

/-- A replay does nothing but to fill the other dictionary. -/
theorem replay_eq (represents : dictionary.Represents vocabulary) :
    dictionary.replay = Compaction.onFresh (fill vocabulary) := by
  rw [replay, fill, Compaction.onFresh_bind, ← Compaction.onFresh_forM, ← Compaction.onFresh_forM,
    represents.forWords_eq Compaction.lift_pure, represents.forWords_eq Compaction.lift_pure]
  congr 1
  · rw [spelled, List.forM_eq_forM, List.forM_map]
    apply forM_congr
    intro entry among
    exact represents.replayUnigram_eq among
  · funext _
    rw [pairs, forM_flatMap]
    apply forM_congr
    intro word member
    rw [represents.replayBigrams_eq member, List.forM_eq_forM, List.forM_eq_forM, List.forM_map]

/-- Compaction puts a newly filled content in the place of the old one, or changes nothing. -/
theorem compact_eq (represents : dictionary.Represents vocabulary) :
    compact.apply dictionary =
      match (fill vocabulary).apply (empty dictionary.header dictionary.configuration) with
      | (.ok (), fresh) => (.ok (), { dictionary with content := fresh.content, superseded := 0 })
      | (.error error, _) => (.error error, dictionary) := by
  rw [compact, Mutation.apply_ofChange, represents.undamaged, represents.replay_eq]
  simp only [Compaction.onFresh, Mutation.apply_onPart, Bool.false_eq_true, if_false]
  generalize (fill vocabulary).apply (empty dictionary.header dictionary.configuration) = outcome
  obtain ⟨answer, fresh⟩ := outcome
  cases answer with
  | error error => rfl
  | ok =>
      dsimp only
      rw [represents.undamaged]
      rfl

end Represents

end Dictionary

end Lexicon

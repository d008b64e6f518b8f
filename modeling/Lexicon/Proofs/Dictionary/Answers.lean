/-
Module: Lexicon.Proofs.Dictionary.Answers
Layer: Proofs
Purpose: A dictionary that represents a vocabulary answers as the vocabulary does, and meets no
  damage.
Imports: Lexicon.Dictionary.Traversal, Lexicon.Proofs.Dictionary.Representation,
  Lexicon.Proofs.Forest.Listing
Trusted boundary: none
Main exports: Dictionary.Represents.find, Dictionary.Represents.probability,
  Dictionary.Represents.bigramProbability, Dictionary.Represents.property,
  Dictionary.Represents.nextWord
-/
import Lexicon.Dictionary.Traversal
import Lexicon.Proofs.Dictionary.Representation
import Lexicon.Proofs.Forest.Listing

namespace Lexicon

open Vocabulary

namespace Dictionary

theorem filed?_snoc (words : Forest) (path : List Int32) (key : Int32) :
    filed? words (path ++ [key]) = (words.at? path key).map (·.1) := by
  rw [filed?, List.getLast?_concat, List.dropLast_concat]
  cases along : descend words Forest.root path with
  | none => rw [Forest.at?, along]; rfl
  | some table => exact Forest.Lawful.get?_at along key

namespace Represents

variable {dictionary : Dictionary} {vocabulary : Vocabulary}

/-- A word is found if it is stored, and found as its token. -/
theorem find (represents : dictionary.Represents vocabulary) (word : Word) :
    dictionary.find word = pure (placeIn vocabulary.spelled word) := by
  induction word using List.reverseRecOn with
  | nil =>
      have missing : [] ∉ vocabulary.spelled := fun member =>
        (represents.content.storable_word member).1 rfl
      rw [placeIn_eq_none.mpr missing]
      rfl
  | append_singleton path key _ =>
      rw [Dictionary.find, filed?_snoc, represents.content.filed]
      by_cases member : path ++ [key] ∈ vocabulary.spelled
      · obtain ⟨token, place⟩ := Option.isSome_iff_exists.mp (isSome_placeIn.mpr member)
        have small := represents.content.token_lt place
        rw [filing_of_mem member, place]
        simp only [Option.map_some, Nat.add_sub_cancel]
        rw [if_neg (by omega), if_neg (by omega)]
      · rw [placeIn_eq_none.mpr member]
        rcases filing_of_notMem member with none | zero
        · rw [none]
        · rw [zero]
          rfl

/-- The records of a stored word. -/
theorem records (represents : dictionary.Represents vocabulary) {word : Word} {unigram : Unigram}
    (known : vocabulary.unigram? word = some unigram) :
    ∃ token terminal, placeIn vocabulary.spelled word = some token ∧ terminal.word = word ∧
      dictionary.readTerminal token = pure (some terminal) ∧
      dictionary.readUnigram terminal.unigram =
        pure (some (unigram, (unigram.encode dictionary.version).length)) ∧
      dictionary.readUnigramHead terminal.unigram =
        pure (some (unigram.flags, (probabilityByte unigram.probability).toNat)) := by
  have member := (unigram?_eq_some represents.content.distinct).mp known
  obtain ⟨token, terminal, place, names, read⟩ := represents.content.records_of_mem member
  obtain ⟨_, storable, kept⟩ := represents.content.storable member
  refine ⟨token, terminal, place, names.word, ?_, ?_, ?_⟩
  · rw [readTerminal, read]
    rfl
  · rw [readUnigram, Unigram.readAt_of_shows storable names.shows, kept]
    rfl
  · rw [readUnigramHead, Unigram.readHead_of_shows names.shows]
    rfl

theorem unigram?_of_place (represents : dictionary.Represents vocabulary) {word : Word}
    {token : Nat} (place : placeIn vocabulary.spelled word = some token) :
    ∃ unigram, vocabulary.unigram? word = some unigram ∧
      unigram.Storable := by
  have member : word ∈ vocabulary.spelled := isSome_placeIn.mp (by rw [place]; rfl)
  obtain ⟨unigram, known⟩ := Option.isSome_iff_exists.mp (isSome_unigram?.mpr member)
  have among := (unigram?_eq_some represents.content.distinct).mp known
  exact ⟨unigram, known, (represents.content.storable among).2.1⟩

theorem suggestibleProbability (represents : dictionary.Represents vocabulary) {word : Word}
    {token : Nat} {unigram : Unigram} (known : vocabulary.unigram? word = some unigram)
    (place : placeIn vocabulary.spelled word = some token) :
    dictionary.suggestibleProbability token =
      pure (if unigram.suggestible then some unigram.probability else none) := by
  obtain ⟨_, terminal, same, _, read, _, head⟩ := represents.records known
  rw [place] at same
  cases same
  obtain ⟨_, again, storable⟩ := represents.unigram?_of_place place
  rw [known] at again
  cases again
  rw [Dictionary.suggestibleProbability, read]
  simp only [Reading.andThen, pure_bind, head, Unigram.flagsNotAWord_flags,
    Unigram.flagsBlacklisted_flags, toNat_probabilityByte storable.probability]
  have suggestible : unigram.suggestible = !(unigram.notAWord || unigram.blacklisted) := by
    rw [Unigram.suggestible, Bool.not_or]
  by_cases hidden : (unigram.notAWord || unigram.blacklisted) = true
  · rw [if_pos hidden, if_neg (by rw [suggestible, hidden]; decide)]
  · rw [if_neg hidden, if_pos (by rw [suggestible, Bool.eq_false_of_not_eq_true hidden]; rfl)]

theorem probability (represents : dictionary.Represents vocabulary) (word : Word) :
    dictionary.probability word = pure (vocabulary.probability word) := by
  rw [Dictionary.probability, represents.find, Vocabulary.probability]
  cases known : vocabulary.unigram? word with
  | none =>
      rw [placeIn_eq_none.mpr (unigram?_eq_none.mp known)]
      rfl
  | some unigram =>
      obtain ⟨token, _, place, _⟩ := represents.records known
      simp only [place, Reading.andThen, pure_bind, represents.suggestibleProbability known place]
      cases unigram.suggestible <;> rfl

/-! ### Bigrams -/

/-- What is filed for two words is the place of the record of what is known about them. -/
theorem related_of_at? (represents : dictionary.Represents vocabulary) {first second : Word}
    {low high record : Nat} {nested : Bool}
    (placeFirst : placeIn vocabulary.spelled first = some low)
    (placeSecond : placeIn vocabulary.spelled second = some high)
    (has : dictionary.content.followers.at? [wordKey low] (wordKey high) = some (record, nested)) :
    nested = false ∧ ∃ bigram, vocabulary.bigrams[(first, second)]? = some bigram ∧
      dictionary.readBigram record = pure (some bigram) := by
  obtain ⟨bare, one, other, source, target, bigram, placeOne, placeOther, sameSource, sameTarget,
    known, shows⟩ := represents.content.relation has
  have equalSource := wordKey_inj (represents.content.token_lt placeFirst)
    (represents.content.token_lt placeOne) sameSource
  have equalTarget := wordKey_inj (represents.content.token_lt placeSecond)
    (represents.content.token_lt placeOther) sameTarget
  rw [← equalSource] at placeOne
  rw [← equalTarget] at placeOther
  cases placeIn_inj placeFirst placeOne
  cases placeIn_inj placeSecond placeOther
  refine ⟨bare, bigram, known, ?_⟩
  rw [readBigram, BigramRecord.readAt_of_shows (represents.content.storableBigram known) shows]
  rfl

/-- What is known about two words has a record, which is filed for them. -/
theorem exists_record (represents : dictionary.Represents vocabulary) {first second : Word}
    {low high : Nat} {bigram : BigramRecord}
    (placeFirst : placeIn vocabulary.spelled first = some low)
    (placeSecond : placeIn vocabulary.spelled second = some high)
    (known : vocabulary.bigrams[(first, second)]? = some bigram) :
    ∃ record, dictionary.content.followers.at? [wordKey low] (wordKey high) = some (record, false) ∧
      dictionary.readBigram record = pure (some bigram) := by
  obtain ⟨source, target, placeSource, placeTarget, some⟩ := represents.content.related known
  cases placeFirst.symm.trans placeSource
  cases placeSecond.symm.trans placeTarget
  obtain ⟨⟨record, nested⟩, has⟩ := Option.isSome_iff_exists.mp some
  obtain ⟨rfl, again, same, read⟩ := represents.related_of_at? placeFirst placeSecond has
  cases known.symm.trans same
  exact ⟨record, has, read⟩

/-- Where nothing is known about two words nothing is filed for them. -/
theorem at?_of_unrelated (represents : dictionary.Represents vocabulary) {first second : Word}
    {low high : Nat} (placeFirst : placeIn vocabulary.spelled first = some low)
    (placeSecond : placeIn vocabulary.spelled second = some high)
    (unknown : vocabulary.bigrams[(first, second)]? = none) :
    dictionary.content.followers.at? [wordKey low] (wordKey high) = none := by
  refine Option.eq_none_iff_forall_ne_some.mpr fun (record, nested) has => ?_
  obtain ⟨_, bigram, known, _⟩ := represents.related_of_at? placeFirst placeSecond has
  cases unknown.symm.trans known

/-- Nothing is known about two words of which one is not there. -/
theorem unrelated_of_missing (represents : dictionary.Represents vocabulary) {first second : Word}
    (missing : placeIn vocabulary.spelled first = none ∨ placeIn vocabulary.spelled second = none) :
    vocabulary.bigrams[(first, second)]? = none := by
  refine Option.eq_none_iff_forall_ne_some.mpr fun bigram known => ?_
  obtain ⟨low, high, placeFirst, placeSecond, _⟩ := represents.content.related known
  rcases missing with missing | missing
  · cases missing.symm.trans placeFirst
  · cases missing.symm.trans placeSecond

theorem descend_source (dictionary : Dictionary) (source : Nat) :
    descend dictionary.content.followers Forest.root [wordKey source] =
      dictionary.followerTable source := by
  rw [followerTable, descend]
  cases dictionary.content.followers.nested? Forest.root (wordKey source) with
  | none => rfl
  | some table => rfl

/-- Where something is filed for two words, the first one has a table, and that has it. -/
theorem exists_followerTable {source target record : Nat} {nested : Bool}
    (has : dictionary.content.followers.at? [wordKey source] (wordKey target) =
      some (record, nested)) :
    ∃ table, dictionary.followerTable source = some table ∧
      dictionary.content.followers.get? table (wordKey target) = some record := by
  cases along : dictionary.followerTable source with
  | none =>
      rw [← descend_source] at along
      rw [Forest.at?, along] at has
      cases has
  | some table =>
      rw [← descend_source] at along
      refine ⟨table, rfl, ?_⟩
      rw [Forest.Lawful.get?_at along, has]
      rfl

theorem bigramProbability (represents : dictionary.Represents vocabulary) (first second : Word) :
    dictionary.bigramProbability first second =
      pure (vocabulary.bigramProbability first second) := by
  rw [Dictionary.bigramProbability, represents.find, represents.find, Vocabulary.bigramProbability]
  cases placeFirst : placeIn vocabulary.spelled first with
  | none =>
      rw [represents.unrelated_of_missing (.inl placeFirst)]
      rfl
  | some low =>
  cases placeSecond : placeIn vocabulary.spelled second with
  | none =>
      rw [represents.unrelated_of_missing (.inr placeSecond)]
      rfl
  | some high =>
  simp only [Reading.andThen, pure_bind]
  cases known : vocabulary.bigrams[(first, second)]? with
  | none =>
      have silent := represents.at?_of_unrelated placeFirst placeSecond known
      cases along : dictionary.followerTable low with
      | none => rfl
      | some table =>
          rw [← descend_source] at along
          dsimp only
          rw [Forest.Lawful.get?_at along, silent]
          rfl
  | some bigram =>
      obtain ⟨record, has, read⟩ := represents.exists_record placeFirst placeSecond known
      obtain ⟨table, along, stored⟩ := exists_followerTable has
      simp only [along, stored, read, pure_bind]
      rfl

/-! ### Properties -/

/-- The bigram of a word with the word that has a token. -/
def bigramAt (vocabulary : Vocabulary) (word : Word) (token : Nat) : Option Bigram :=
  (wordAt vocabulary.spelled token).bind fun target =>
    (vocabulary.bigrams[(word, target)]?).map fun record =>
      { target := target, probability := record.probability, history := record.history }

/-- Bigrams in the order of the words are bigrams in the order of the tokens. -/
theorem bigramsOf_eq_places (vocabulary : Vocabulary) (word : Word) :
    vocabulary.bigramsOf word =
      (vocabulary.spelled.filterMap (placeIn vocabulary.spelled)).filterMap
        (bigramAt vocabulary word) := by
  rw [List.filterMap_filterMap, bigramsOf]
  apply List.filterMap_congr
  intro target member
  obtain ⟨token, place⟩ := Option.isSome_iff_exists.mp (isSome_placeIn.mpr member)
  rw [place, Option.bind_some, bigramAt, wordAt_of_placeIn place, Option.bind_some]

/-- Growing lists with the same members are the same. -/
theorem eq_of_increasing {first second : List Nat} (growing : first.Pairwise (· < ·))
    (growingOther : second.Pairwise (· < ·)) (same : ∀ number, number ∈ first ↔ number ∈ second) :
    first = second := by
  have perm := (List.perm_ext_iff_of_nodup (growing.imp Nat.ne_of_lt)
    (growingOther.imp Nat.ne_of_lt)).mpr same
  exact perm.eq_of_pairwise (fun _ _ _ _ less more => absurd more (Nat.lt_asymm less)) growing
    growingOther

/-- Sorting what has different keys makes the keys grow. -/
theorem increasing_mergeSort {relations : List (Nat × Nat)} (distinct : (relations.map (·.1)).Nodup) :
    ((relations.mergeSort fun first second => first.1 ≤ second.1).map (·.1)).Pairwise (· < ·) := by
  have ordered := @List.pairwise_mergeSort (Nat × Nat)
    (fun first second => decide (first.1 ≤ second.1))
    (by
      intro first second third one two
      simp only [decide_eq_true_eq] at one two ⊢
      exact Nat.le_trans one two)
    (by
      intro first second
      simp only [Bool.or_eq_true, decide_eq_true_eq]
      exact Nat.le_total first.1 second.1)
    relations
  have apart := ((List.mergeSort_perm relations
    fun first second => decide (first.1 ≤ second.1)).map (·.1)).nodup_iff.mpr distinct
  rw [List.Nodup, List.pairwise_map] at apart
  rw [List.pairwise_map]
  refine (ordered.and apart).imp ?_
  rintro first second ⟨le, differ⟩
  exact Nat.lt_of_le_of_ne (of_decide_eq_true le) differ

/-- The relations of a word are in the order of the tokens of its followers. -/
theorem followers_increasing (represents : dictionary.Represents vocabulary) (low : Nat) :
    ((dictionary.followers low).map (·.1)).Pairwise (· < ·) := by
  rw [followers]
  cases along : dictionary.followerTable low with
  | none => exact List.Pairwise.nil
  | some table =>
      rw [← descend_source] at along
      obtain ⟨tables, sound⟩ := represents.content.followers
      have keys := Forest.entries_keys_nodup sound (sound.descend_mem along)
      apply increasing_mergeSort
      rw [List.map_map]
      rw [List.Nodup, List.pairwise_map] at keys ⊢
      refine keys.imp ?_
      intro first second differ same
      apply differ
      rw [← wordKey_wordOffset first.key, ← wordKey_wordOffset second.key]
      exact congrArg wordKey same

/-- The relations of a word are what is filed below it. -/
theorem mem_followers (represents : dictionary.Represents vocabulary) {low : Nat}
    {relation : Nat × Nat} :
    relation ∈ dictionary.followers low ↔ ∃ key nested,
      dictionary.content.followers.at? [wordKey low] key = some (relation.2, nested) ∧
        wordOffset key = relation.1 := by
  rw [followers]
  cases along : dictionary.followerTable low with
  | none =>
      rw [← descend_source] at along
      simp [Forest.at?, along]
  | some table =>
      dsimp only
      rw [← descend_source] at along
      obtain ⟨tables, sound⟩ := represents.content.followers
      have listed : ∀ entry : Entry, entry ∈ dictionary.content.followers.entries table ↔
          dictionary.content.followers.under? table entry.key = some entry.content :=
        Forest.mem_entries sound (sound.descend_mem along)
      rw [List.mem_mergeSort, List.mem_map]
      constructor
      · rintro ⟨entry, inside, rfl⟩
        refine ⟨entry.key, entry.nested.isSome, ?_, rfl⟩
        rw [Forest.Sound.at?_of_descend along, (listed entry).mp inside]
        rfl
      · rintro ⟨key, nested, has, offset⟩
        rw [Forest.Sound.at?_of_descend along] at has
        obtain ⟨content, holds, same⟩ := Option.map_eq_some_iff.mp has
        refine ⟨⟨key, content.1, content.2⟩, (listed _).mpr holds, ?_⟩
        rw [offset, show content.1 = relation.2 from congrArg Prod.fst same]

/-- Each relation of a word is that of a bigram. -/
theorem bigram_of_mem_followers (represents : dictionary.Represents vocabulary) {word : Word}
    {low : Nat} (place : placeIn vocabulary.spelled word = some low) {relation : Nat × Nat}
    (among : relation ∈ dictionary.followers low) :
    ∃ target bigram, placeIn vocabulary.spelled target = some relation.1 ∧
      vocabulary.bigrams[(word, target)]? = some bigram ∧
      dictionary.readBigram relation.2 = pure (some bigram) := by
  obtain ⟨key, nested, seen, offset⟩ := represents.mem_followers.mp among
  obtain ⟨_, first, target, source, high, bigram, placeFirst, placeTarget, sameSource, sameTarget,
    known, _⟩ := represents.content.relation seen
  have equal := wordKey_inj (represents.content.token_lt place)
    (represents.content.token_lt placeFirst) sameSource
  rw [← equal] at placeFirst
  cases placeIn_inj place placeFirst
  obtain ⟨record, has, read⟩ := represents.exists_record place placeTarget known
  rw [← sameTarget, seen] at has
  have stored : relation.2 = record := congrArg Prod.fst (Option.some.inj has)
  refine ⟨target, bigram, ?_, known, stored ▸ read⟩
  rw [← offset, sameTarget, wordOffset_wordKey (represents.content.token_lt placeTarget).le]
  exact placeTarget

/-- Each bigram of a word has a relation. -/
theorem mem_followers_of_bigram (represents : dictionary.Represents vocabulary) {word target : Word}
    {low token : Nat} (place : placeIn vocabulary.spelled word = some low)
    (placeTarget : placeIn vocabulary.spelled target = some token)
    (related : (word, target) ∈ vocabulary.bigrams) :
    token ∈ (dictionary.followers low).map (·.1) := by
  obtain ⟨bigram, known⟩ := Option.isSome_iff_exists.mp
    (Std.ExtHashMap.mem_iff_isSome_getElem?.mp related)
  obtain ⟨record, has, _⟩ := represents.exists_record place placeTarget known
  refine List.mem_map.mpr ⟨(token, record), ?_, rfl⟩
  exact represents.mem_followers.mpr
    ⟨_, _, has, wordOffset_wordKey (represents.content.token_lt placeTarget).le⟩

theorem readFollowers_eq (dictionary : Dictionary) (relations : List (Nat × Nat))
    (target : Nat × Nat → Option Bigram)
    (each : ∀ relation ∈ relations,
      dictionary.readFollower relation.1 relation.2 = pure (target relation)) :
    dictionary.readFollowers relations = pure (relations.filterMap target) := by
  induction relations with
  | nil => rfl
  | cons first others ih =>
      obtain ⟨here, there⟩ := List.forall_mem_cons.mp each
      rw [readFollowers, here, ih there]
      simp only [pure_bind, List.filterMap_cons]
      cases target first with
      | none => rfl
      | some bigram => rfl

/-- Each relation of a word is read as the bigram of the word that has its token. -/
theorem readFollower (represents : dictionary.Represents vocabulary) {word : Word} {low : Nat}
    (place : placeIn vocabulary.spelled word = some low) {relation : Nat × Nat}
    (among : relation ∈ dictionary.followers low) :
    ∃ bigram, bigramAt vocabulary word relation.1 = some bigram ∧
      dictionary.readFollower relation.1 relation.2 = pure (some bigram) := by
  obtain ⟨target, record, placeTarget, known, readBigram⟩ :=
    represents.bigram_of_mem_followers place among
  obtain ⟨_, knownTarget, _⟩ := represents.unigram?_of_place placeTarget
  obtain ⟨_, terminal, again, spelled, readTerminal, _⟩ := represents.records knownTarget
  rw [placeTarget] at again
  cases again
  rw [Dictionary.readFollower, readTerminal, bigramAt, wordAt_of_placeIn placeTarget,
    Option.bind_some, known]
  simp only [Reading.andThen, pure_bind, readBigram, spelled]
  exact ⟨_, rfl, rfl⟩

/-- The tokens of the relations of a word are those of the words with which it has a bigram. -/
theorem map_followers (represents : dictionary.Represents vocabulary) {word : Word} {low : Nat}
    (place : placeIn vocabulary.spelled word = some low) :
    (dictionary.followers low).map (·.1) =
      (vocabulary.spelled.filterMap (placeIn vocabulary.spelled)).filter fun token =>
        (bigramAt vocabulary word token).isSome := by
  apply eq_of_increasing (represents.followers_increasing low)
  · apply List.Pairwise.filter
    rw [List.pairwise_filterMap]
    refine (placeIn_increasing represents.content.distinct).imp ?_
    intro first second ordered low here high there
    exact ordered here there
  · intro token
    rw [List.mem_filter, List.mem_filterMap]
    constructor
    · intro among
      obtain ⟨relation, inside, rfl⟩ := List.mem_map.mp among
      obtain ⟨target, bigram, placeTarget, known, _⟩ :=
        represents.bigram_of_mem_followers place inside
      refine ⟨⟨target, isSome_placeIn.mp (by rw [placeTarget]; rfl), placeTarget⟩, ?_⟩
      rw [bigramAt, wordAt_of_placeIn placeTarget, Option.bind_some, known]
      rfl
    · rintro ⟨⟨target, _, placeTarget⟩, some⟩
      rw [bigramAt, wordAt_of_placeIn placeTarget, Option.bind_some, Option.isSome_map] at some
      exact represents.mem_followers_of_bigram place placeTarget
        (Std.ExtHashMap.mem_iff_isSome_getElem?.mpr some)

/-- What the relations of a word are read as. -/
theorem readFollowers (represents : dictionary.Represents vocabulary) {word : Word} {low : Nat}
    (place : placeIn vocabulary.spelled word = some low) :
    dictionary.readFollowers (dictionary.followers low) =
      pure ((dictionary.followers low).filterMap fun relation =>
        bigramAt vocabulary word relation.1) := by
  refine readFollowers_eq dictionary _ _ fun relation among => ?_
  obtain ⟨bigram, here, read⟩ := represents.readFollower place among
  rw [here, read]

theorem bigrams (represents : dictionary.Represents vocabulary) {word : Word} {low : Nat}
    (place : placeIn vocabulary.spelled word = some low) :
    dictionary.bigrams low = pure (vocabulary.bigramsOf word) := by
  have joined : (dictionary.followers low).filterMap
      (fun relation => bigramAt vocabulary word relation.1) =
        ((dictionary.followers low).map (·.1)).filterMap (bigramAt vocabulary word) := by
    rw [List.filterMap_map]
    rfl
  rw [Dictionary.bigrams, represents.readFollowers place, bigramsOf_eq_places, joined,
    represents.map_followers place, List.filterMap_filter]
  congr 1
  apply List.filterMap_congr
  intro token _
  cases bigramAt vocabulary word token with
  | none => rfl
  | some bigram => rfl

/-- A word has as many relations as bigrams. -/
theorem length_followers (represents : dictionary.Represents vocabulary) {word : Word} {low : Nat}
    (place : placeIn vocabulary.spelled word = some low) :
    (dictionary.followers low).length = (vocabulary.bigramsOf word).length := by
  have read := represents.bigrams place
  rw [Dictionary.bigrams, represents.readFollowers place] at read
  have same := congrArg Reading.value read
  rw [Reading.value_pure, Reading.value_pure] at same
  rw [← same, eq_comm, List.filterMap_length_eq_length]
  intro relation among
  obtain ⟨bigram, here, _⟩ := represents.readFollower place among
  rw [here]
  rfl

theorem property (represents : dictionary.Represents vocabulary) (word : Word) :
    dictionary.property word = pure (vocabulary.property word) := by
  rw [Dictionary.property, represents.find, Vocabulary.property]
  cases known : vocabulary.unigram? word with
  | none =>
      rw [placeIn_eq_none.mpr (unigram?_eq_none.mp known)]
      rfl
  | some unigram =>
      obtain ⟨token, terminal, place, spelled, readTerminal, readUnigram, _⟩ :=
        represents.records known
      rw [place]
      simp only [Reading.andThen, pure_bind, readTerminal, readUnigram, represents.bigrams place,
        spelled]
      rfl

/-! ### Traversal -/

theorem nextWord (represents : dictionary.Represents vocabulary) {token : Nat}
    (valid : total vocabulary.spelled ≤ token ∨ (wordAt vocabulary.spelled token).isSome = true) :
    dictionary.nextWord token = pure (vocabulary.next token) := by
  have size := represents.content.size_terminals
  rw [Dictionary.nextWord, Vocabulary.next, size]
  cases here : wordAt vocabulary.spelled token with
  | none =>
      rw [here] at valid
      rw [if_pos (valid.resolve_right Bool.false_ne_true)]
  | some word =>
      have place := placeIn_of_wordAt represents.content.distinct here
      have ends := placeIn_le place
      have positive := recordSize_pos word
      obtain ⟨_, known, _⟩ := represents.unigram?_of_place place
      obtain ⟨_, terminal, again, spelled, read, _⟩ := represents.records known
      rw [place] at again
      cases again
      rw [if_neg (by omega), read]
      simp only [pure_bind, ← recordSize_eq, spelled]

theorem query (represents : dictionary.Represents vocabulary) (question : String) :
    dictionary.query question = vocabulary.query dictionary.configuration question := by
  rw [Dictionary.query, Vocabulary.query, represents.content.unigramCount,
    represents.content.bigramCount]

end Represents

end Dictionary

end Lexicon

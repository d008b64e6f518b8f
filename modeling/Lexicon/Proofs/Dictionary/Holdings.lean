/-
Module: Lexicon.Proofs.Dictionary.Holdings
Layer: Proofs
Purpose: Where the current records of a dictionary stand: every word and every bigram has one, inside
  the buffer of the records, and no two of them share a byte.
Imports: Lexicon.Proofs.Dictionary.Economy, Lexicon.Proofs.Dictionary.Remnant,
  Lexicon.Proofs.Forest.Tiling, Mathlib.Algebra.BigOperators.Ring.List, Mathlib.Data.Nat.Cast.Basic
Trusted boundary: none
Main exports: Dictionary.currentRecords, Content.Holds, Content.Orderly, Dictionary.lasting_orderly,
  Dictionary.Represents.sum_currentRecords, Dictionary.Genuine.currentRecords_apart
-/
import Lexicon.Proofs.Dictionary.Economy
import Lexicon.Proofs.Dictionary.Remnant
import Lexicon.Proofs.Forest.Tiling
import Mathlib.Algebra.BigOperators.Ring.List
import Mathlib.Data.Nat.Cast.Basic

namespace Lexicon

open Vocabulary

/-! ### Current records -/

namespace Dictionary

/-- Where the unigram record of the word with a token stands, if it can be read.  How long it is comes
of reading it. -/
def unigramExtent (dictionary : Dictionary) (token : Nat) : Option Extent :=
  (dictionary.readTerminal token).value.bind fun terminal =>
    (dictionary.readUnigram terminal.unigram).value.map fun known =>
      { first := terminal.unigram, length := known.2 }

/-- Where the records of a word stand: its unigram record, and the records of its bigrams. -/
def recordsOf (dictionary : Dictionary) (word : Word) : List Extent :=
  match (dictionary.find word).value with
  | none => []
  | some token =>
      (dictionary.unigramExtent token).toList ++
        (dictionary.followers token).map fun relation =>
          { first := relation.2, length := BigramRecord.size dictionary.version }

/-- Where the records of all words and bigrams stand that are stored now. -/
def currentRecords (dictionary : Dictionary) : List Extent :=
  dictionary.visited.flatMap dictionary.recordsOf

theorem currentRecords_cleared (dictionary : Dictionary) :
    dictionary.cleared.currentRecords = dictionary.currentRecords := by
  rw [currentRecords, currentRecords, @visited_congr dictionary dictionary.cleared rfl]
  rfl

end Dictionary

/-! ### What a content holds -/

open Dictionary

/-- A content holds, at some place, the unigram record of a word, or the bigram record of a word and one
that follows it. -/
inductive Content.Holds (content : Content) (version : FormatVersion) (vocabulary : Vocabulary) :
    Word × Option Word → Extent → Prop where
  | unigram {word : Word} {unigram : Unigram} {token : Nat} {terminal : Terminal}
      (known : vocabulary.unigram? word = some unigram)
      (place : placeIn vocabulary.spelled word = some token)
      (read : Terminal.readAt content.terminals token = some terminal) :
      Holds content version vocabulary (word, none)
        { first := terminal.unigram, length := unigramSize version unigram }
  | bigram {first second : Word} {low high record : Nat} {nested : Bool}
      (placeFirst : placeIn vocabulary.spelled first = some low)
      (placeSecond : placeIn vocabulary.spelled second = some high)
      (filed : content.followers.at? [wordKey low] (wordKey high) = some (record, nested)) :
      Holds content version vocabulary (first, some second)
        { first := record, length := BigramRecord.size version }

/-- What is represented, with no two records that share a byte. -/
structure Content.Orderly (content : Content) (version : FormatVersion) (vocabulary : Vocabulary) :
    Prop where
  represents : content.Represents version vocabulary
  apart : ∀ {one other : Word × Option Word} {extent further : Extent}, one ≠ other →
    content.Holds version vocabulary one extent → content.Holds version vocabulary other further →
      extent.Apart further

/-- After a change every record was held before, but for the one of a word or of two words, which then
begins where the records ended before. -/
def Content.Appends (before after : Content) (version : FormatVersion) (vocabulary next : Vocabulary)
    (owner : Word × Option Word) : Prop :=
  ∀ {other : Word × Option Word} {extent : Extent}, after.Holds version next other extent →
    before.Holds version vocabulary other extent ∨
      other = owner ∧ extent.first = before.records.size

namespace Content

variable {content after : Content} {version : FormatVersion} {vocabulary next : Vocabulary}
  {owner : Word × Option Word} {extent : Extent}

/-- Every record that is held lies inside the buffer. -/
theorem Holds.le_size (holds : content.Holds version vocabulary owner extent)
    (represents : content.Represents version vocabulary) :
    extent.first + extent.length ≤ content.records.size := by
  cases holds with
  | unigram known place read =>
      obtain ⟨_, terminal, again, names, readAgain⟩ :=
        represents.records_of_mem ((unigram?_eq_some represents.distinct).mp known)
      cases place.symm.trans again
      cases read.symm.trans readAgain
      rw [← Unigram.length_encode]
      exact names.shows.length_le nofun
  | bigram placeFirst placeSecond filed =>
      obtain ⟨_, _, _, _, _, bigram, _, _, _, _, _, shows⟩ := represents.relation filed
      rw [← BigramRecord.length_encode version bigram]
      exact shows.length_le nofun

/-- No change moves a record into another one: what is appended begins where all others end. -/
theorem Orderly.step (orderly : content.Orderly version vocabulary)
    (represents : after.Represents version next)
    (appends : content.Appends after version vocabulary next owner) :
    after.Orderly version next := by
  refine ⟨represents, fun {one other extent further} differ holds holdsOther => ?_⟩
  -- what was there before ends before what was appended begins
  have beyond : ∀ {old new : Extent} {holder : Word × Option Word},
      content.Holds version vocabulary holder old → new.first = content.records.size →
        ∀ index, ¬ (old.Covers index ∧ new.Covers index) := by
    rintro old new holder held begins index ⟨⟨_, low⟩, high, _⟩
    have inside := held.le_size orderly.represents
    omega
  rcases appends holds with here | ⟨rfl, begins⟩
  · rcases appends holdsOther with there | ⟨rfl, begins⟩
    · exact orderly.apart differ here there
    · exact beyond here begins
  · rcases appends holdsOther with there | ⟨rfl, _⟩
    · exact fun index both => beyond there begins index both.symm
    · exact absurd rfl differ

/-- The copy that is read from an image holds the same records. -/
theorem Orderly.reloaded (orderly : content.Orderly version vocabulary) :
    content.reloaded.Orderly version vocabulary := by
  refine ⟨orderly.represents.copy ⟨rfl, rfl, rfl, rfl, rfl, rfl⟩, fun differ holds holdsOther => ?_⟩
  have back : ∀ {owner : Word × Option Word} {extent : Extent},
      content.reloaded.Holds version vocabulary owner extent →
        content.Holds version vocabulary owner extent := by
    intro owner extent holds
    cases holds with
    | unigram known place read => exact .unigram known place read
    | bigram placeFirst placeSecond filed =>
        rw [@Forest.at?_copy content.followers content.reloaded.followers rfl] at filed
        exact .bigram placeFirst placeSecond filed
  exact orderly.apart differ (back holds) (back holdsOther)

end Content

/-! ### Terminal records of a roster -/

/-- Terminal records are those of the words, in their order. -/
theorem Layout.spelled {version : FormatVersion} {records : ByteArray} {terminals : List Terminal}
    {words : List (Word × Unigram)} (layout : Layout version records terminals words) :
    terminals.map Terminal.word = words.map (·.1) := by
  induction layout with
  | nil => rfl
  | cons names _ ih => rw [List.map_cons, List.map_cons, names.word, ih]

namespace Roster

variable {version : FormatVersion} {buffer records : ByteArray} {vocabulary : Vocabulary}
  {terminals : List Terminal}

/-- At the token of a word its terminal record is read. -/
theorem readAt_iff (roster : Roster version buffer records vocabulary terminals)
    (distinct : vocabulary.spelled.Nodup) {word : Word} (storable : word.Storable) {token : Nat}
    (place : placeIn vocabulary.spelled word = some token) (terminal : Terminal) :
    Terminal.readAt buffer token = some terminal ↔ terminal ∈ terminals ∧ terminal.word = word := by
  have member : word ∈ vocabulary.spelled := isSome_placeIn.mp (by rw [place]; rfl)
  obtain ⟨entry, among, rfl⟩ := List.mem_map.mp member
  obtain ⟨bytes, layout⟩ := roster
  have apart : (terminals.map Terminal.word).Nodup := layout.spelled ▸ distinct
  obtain ⟨before, found, behind, _, _, rfl, _, _, names, _, here⟩ := layout.split distinct among
  cases place.symm.trans here
  rw [← show found.word = entry.1 from names.word] at storable ⊢
  have read : Terminal.readAt buffer (before.flatMap Terminal.encode).length = some found := by
    apply Terminal.readAt_of_shows storable names.fits
    apply Buffer.Shows.between
    rw [bytes, List.flatMap_append, List.flatMap_cons, ← List.append_assoc]
  rw [read]
  constructor
  · intro same
    cases same
    exact ⟨List.mem_append_right _ List.mem_cons_self, rfl⟩
  · rintro ⟨listed, same⟩
    exact congrArg some (List.inj_on_of_nodup_map apart
      (List.mem_append_right _ List.mem_cons_self) listed same.symm)

end Roster

namespace Vocabulary

/-- Words keep their tokens when something is stored. -/
theorem placeIn_store {vocabulary : Vocabulary} {other : Word} {token : Nat}
    (place : placeIn vocabulary.spelled other = some token) (word : Word) (unigram : Unigram) :
    placeIn (vocabulary.store word unigram).spelled other = some token := by
  rw [spelled_store]
  split
  next => exact place
  next => exact placeIn_append place

/-- What is known about other words stays when something is stored. -/
theorem unigram?_store_of_ne {vocabulary : Vocabulary} {word other : Word}
    (distinct : vocabulary.spelled.Nodup) (differ : other ≠ word) {stored unigram : Unigram}
    (known : (vocabulary.store word stored).unigram? other = some unigram) :
    vocabulary.unigram? other = some unigram := by
  rw [unigram?_eq_some (nodup_spelled_store distinct _ _)] at known
  rw [unigram?_eq_some distinct]
  rcases mem_words_store known with same | before
  · exact absurd (congrArg Prod.fst same) differ
  · exact before

end Vocabulary

/-! ### Changes -/

namespace Dictionary

section Changes

variable {dictionary after : Dictionary} {vocabulary : Vocabulary} {word : Word} {unigram : Unigram}
  {bigram : Bigram} {room : Nat}

/-- Adding a unigram makes a new terminal record, or puts a new pointer into one. -/
theorem UnigramStored.rosters {content : Content}
    (stored : UnigramStored dictionary word unigram content)
    (represents : dictionary.Represents vocabulary) :
    ∃ terminals grown,
      Roster dictionary.version dictionary.content.terminals dictionary.content.records vocabulary
        terminals ∧
      Roster dictionary.version content.terminals content.records
        (vocabulary.store word (unigram.kept dictionary.version)) grown ∧
      ⟨word, dictionary.content.records.size⟩ ∈ grown ∧
      ∀ terminal ∈ grown, terminal.word ≠ word → terminal ∈ terminals := by
  have fits : dictionary.content.records.size < LittleEndian.span 4 := by
    have bounded := represents.content.sizes_le
    have limit : maxBufferBytes < LittleEndian.span 4 := by decide
    omega
  cases stored with
  | replaced found read =>
      rw [represents.find] at found
      have place : placeIn vocabulary.spelled word = some _ := found
      obtain ⟨_, known, _⟩ := represents.unigram?_of_place place
      obtain ⟨_, terminal, again, spelled, readTerminal, _⟩ := represents.records known
      cases place.symm.trans again
      rw [readTerminal] at read
      cases read
      obtain ⟨before, found, behind, same, roster, grown⟩ :=
        represents.content.roster_replaced place spelled fits unigram
      refine ⟨_, _, roster, grown, List.mem_append_right _ List.mem_cons_self, ?_⟩
      intro other among differ
      simp only [List.mem_append, List.mem_cons] at among ⊢
      rcases among with ahead | rfl | later
      · exact .inl ahead
      · exact absurd rfl differ
      · exact .inr (.inr later)
  | inserted new filed =>
      rw [represents.find] at new
      obtain ⟨terminals, roster, grown⟩ :=
        represents.content.roster_inserted (placeIn_eq_none.mp new) fits unigram
      refine ⟨_, _, roster, grown, List.mem_append_right _ List.mem_cons_self, ?_⟩
      intro other among differ
      rcases List.mem_append.mp among with ahead | last
      · exact ahead
      · rw [List.mem_singleton.mp last] at differ
        exact absurd rfl differ

/-- Adding a unigram appends its record. -/
theorem Represents.appends_addUnigram (represents : dictionary.Represents vocabulary)
    (done : (Dictionary.addUnigram word unigram).apply dictionary = (.ok (), after))
    (changed : Changed dictionary after (vocabulary.store word (unigram.kept dictionary.version))
      room) :
    dictionary.content.Appends after.content dictionary.version vocabulary
      (vocabulary.store word (unigram.kept dictionary.version)) (word, none) := by
  have stored := represents.unigramStored done
  have distinct := represents.content.distinct
  intro other extent holds
  cases holds with
  | @unigram other known token terminal told place read =>
      obtain ⟨terminals, grown, roster, rosterAfter, new, old⟩ := stored.rosters represents
      have member : other ∈ (vocabulary.store word (unigram.kept dictionary.version)).spelled :=
        isSome_placeIn.mp (by rw [place]; rfl)
      have storable := changed.content.storable_word member
      have listed := rosterAfter.readAt_iff changed.content.distinct storable place
      obtain ⟨among, spelled⟩ := (listed terminal).mp read
      by_cases same : other = word
      · have last := (listed _).mpr ⟨new, same.symm⟩
        rw [read] at last
        cases last
        exact .inr ⟨by rw [same], rfl⟩
      · have before := unigram?_store_of_ne distinct same told
        obtain ⟨low, placeBefore⟩ := Option.isSome_iff_exists.mp
          (isSome_placeIn.mpr (isSome_unigram?.mp (by rw [before]; rfl)))
        cases place.symm.trans (placeIn_store placeBefore _ _)
        refine .inl (.unigram before placeBefore ?_)
        exact (roster.readAt_iff distinct storable placeBefore _).mpr
          ⟨old terminal among (by rw [spelled]; exact same), spelled⟩
  | bigram placeFirst placeSecond filed =>
      rw [stored.followers] at filed
      obtain ⟨_, _, _, _, _, _, placeOne, placeTwo, source, target, _⟩ :=
        represents.content.relation filed
      cases changed.content.pair_eq placeFirst placeSecond (placeIn_store placeOne _ _)
        (placeIn_store placeTwo _ _) ⟨source, target⟩
      rw [source, target] at filed
      exact .inl (.bigram placeOne placeTwo filed)

/-- Adding a bigram appends its record. -/
theorem Represents.appends_addBigram (represents : dictionary.Represents vocabulary)
    (done : (Dictionary.addBigram word bigram).apply dictionary = (.ok (), after)) :
    dictionary.content.Appends after.content dictionary.version vocabulary
      (vocabulary.relate word bigram.target (bigram.record dictionary.version))
      (word, some bigram.target) := by
  have stored := represents.bigramStored done
  generalize after.content = content at stored
  have bounded : dictionary.usedBytes ≤ maxBufferBytes := represents.content.bounded
  have total := usedBytes_eq dictionary
  have limit : maxBufferBytes = 2147483647 := rfl
  have slots : maxSlots = 2147483647 := rfl
  have largest : Forest.maxValue = 68719476735 := rfl
  cases stored with
  | @filed low high followers found foundTarget outcome =>
      rw [represents.find] at found foundTarget
      obtain ⟨_, again, _, _, at?⟩ := fileBigram_spec represents.content.followers low high
        (show dictionary.content.records.size ≤ Forest.maxValue by omega) (by omega)
      cases outcome.symm.trans again
      intro other extent holds
      cases holds with
      | unigram known place read => exact .inl (.unigram known place read)
      | bigram placeFirst placeSecond has =>
          dsimp only at has
          rw [at?] at has
          split at has
          next same =>
            cases represents.content.pair_eq placeFirst placeSecond found foundTarget same
            cases has
            exact .inr ⟨rfl, rfl⟩
          next => exact .inl (.bigram placeFirst placeSecond has)

/-- Removing a bigram appends nothing. -/
theorem Unfiled.appends {bytes : Nat} (unfiled : Unfiled dictionary after bytes)
    (words : Word × Word) (owner : Word × Option Word) :
    dictionary.content.Appends after.content dictionary.version vocabulary
      { vocabulary with bigrams := vocabulary.bigrams.erase words } owner := by
  intro other extent holds
  cases holds with
  | unigram known place read =>
      rw [unfiled.terminals] at read
      exact .inl (.unigram known place read)
  | bigram placeFirst placeSecond filed =>
      exact .inl (.bigram placeFirst placeSecond (unfiled.followers filed))

end Changes

/-- Records never share a byte, whatever is done. -/
theorem lasting_orderly :
    Lasting fun header content => ∃ vocabulary, content.Orderly header.version vocabulary where
  empty header := by
    refine ⟨{}, (represents_empty header default).content, ?_⟩
    intro one other extent further _ holds
    cases holds with
    | unigram known => cases known
    | bigram placeFirst => cases placeFirst
  addUnigram header word unigram := by
    refine (Heedless.addUnigram word unigram).preserves (fun undamaged ⟨vocabulary, orderly⟩ => ?_)
      header
    have represents : Represents _ vocabulary := ⟨orderly.represents, undamaged⟩
    exact (represents.addUnigram word unigram).kept (fun content known => content.Orderly _ known)
      orderly fun done changed =>
        orderly.step changed.content (represents.appends_addUnigram done changed)
  addBigram header first bigram := by
    refine (Heedless.addBigram first bigram).preserves (fun undamaged ⟨vocabulary, orderly⟩ => ?_)
      header
    have represents : Represents _ vocabulary := ⟨orderly.represents, undamaged⟩
    exact (represents.addBigram first bigram).kept (fun content known => content.Orderly _ known)
      orderly fun done changed => orderly.step changed.content (represents.appends_addBigram done)
  removeBigram header first second := by
    refine (Heedless.removeBigram first second).preserves
      (fun undamaged ⟨vocabulary, orderly⟩ => ?_) header
    have represents : Represents _ vocabulary := ⟨orderly.represents, undamaged⟩
    exact (represents.removeBigram first second).kept (fun content known => content.Orderly _ known)
      orderly fun done changed => orderly.step changed.content
        ((represents.unfiled done).appends (first, second) (first, none))

/-- Wherever a dictionary came from, no two of its records share a byte. -/
theorem Genuine.orderly {dictionary : Dictionary} (genuine : Genuine dictionary) :
    ∃ vocabulary, dictionary.content.Orderly dictionary.version vocabulary :=
  lasting_orderly.genuine (fun ⟨vocabulary, orderly⟩ => ⟨vocabulary, orderly.reloaded⟩) genuine

/-! ### The records that are found -/

section Current

variable {dictionary : Dictionary} {vocabulary : Vocabulary} {word : Word} {low : Nat}

/-- The unigram record of a stored word is found, as long as it was written. -/
theorem Represents.unigramExtent_eq (represents : dictionary.Represents vocabulary)
    {unigram : Unigram} (known : vocabulary.unigram? word = some unigram) :
    ∃ token terminal, placeIn vocabulary.spelled word = some token ∧
      Terminal.readAt dictionary.content.terminals token = some terminal ∧
      dictionary.unigramExtent token = some
        { first := terminal.unigram, length := unigramSize dictionary.version unigram } := by
  have among := (unigram?_eq_some represents.content.distinct).mp known
  obtain ⟨token, terminal, place, names, read⟩ := represents.content.records_of_mem among
  obtain ⟨_, storable, _⟩ := represents.content.storable among
  refine ⟨token, terminal, place, read, ?_⟩
  rw [unigramExtent, readTerminal, read]
  show (dictionary.readUnigram terminal.unigram).value.map _ = _
  rw [readUnigram, Unigram.readAt_of_shows storable names.shows, Unigram.length_encode]
  rfl

/-- What is found for a stored word is its unigram record, and then the records of its bigrams. -/
theorem Represents.recordsOf_eq (represents : dictionary.Represents vocabulary) {unigram : Unigram}
    (known : vocabulary.unigram? word = some unigram) :
    ∃ token terminal, placeIn vocabulary.spelled word = some token ∧
      Terminal.readAt dictionary.content.terminals token = some terminal ∧
      dictionary.recordsOf word =
        { first := terminal.unigram, length := unigramSize dictionary.version unigram } ::
          (dictionary.followers token).map fun relation =>
            { first := relation.2, length := BigramRecord.size dictionary.version } := by
  obtain ⟨token, terminal, place, read, found⟩ := represents.unigramExtent_eq known
  refine ⟨token, terminal, place, read, ?_⟩
  rw [recordsOf, represents.find, place, Reading.value_pure]
  dsimp only
  rw [found]
  rfl

/-- Each relation of a word is where the record of a bigram is held. -/
theorem Represents.holds_of_mem_followers (represents : dictionary.Represents vocabulary)
    (place : placeIn vocabulary.spelled word = some low) {relation : Nat × Nat}
    (among : relation ∈ dictionary.followers low) :
    ∃ target, placeIn vocabulary.spelled target = some relation.1 ∧
      dictionary.content.Holds dictionary.version vocabulary (word, some target)
        { first := relation.2, length := BigramRecord.size dictionary.version } := by
  obtain ⟨target, _, placeTarget, _⟩ := represents.bigram_of_mem_followers place among
  obtain ⟨key, nested, filed, offset⟩ := represents.mem_followers.mp among
  rw [← wordKey_wordOffset key, offset] at filed
  exact ⟨target, placeTarget, .bigram place placeTarget filed⟩

/-- What is found for a stored word is held. -/
theorem Represents.holds_of_mem_recordsOf (represents : dictionary.Represents vocabulary)
    (member : word ∈ vocabulary.spelled) {extent : Extent}
    (among : extent ∈ dictionary.recordsOf word) :
    ∃ follower, dictionary.content.Holds dictionary.version vocabulary (word, follower) extent := by
  obtain ⟨unigram, known⟩ := Option.isSome_iff_exists.mp (isSome_unigram?.mpr member)
  obtain ⟨token, terminal, place, read, found⟩ := represents.recordsOf_eq known
  rw [found] at among
  rcases List.mem_cons.mp among with rfl | later
  · exact ⟨none, .unigram known place read⟩
  · obtain ⟨relation, inside, rfl⟩ := List.mem_map.mp later
    obtain ⟨target, _, holds⟩ := represents.holds_of_mem_followers place inside
    exact ⟨some target, holds⟩

/-- No two records that are found for a stored word share a byte. -/
theorem Represents.pairwise_recordsOf (represents : dictionary.Represents vocabulary)
    (orderly : dictionary.content.Orderly dictionary.version vocabulary)
    (member : word ∈ vocabulary.spelled) :
    (dictionary.recordsOf word).Pairwise Extent.Apart := by
  obtain ⟨unigram, known⟩ := Option.isSome_iff_exists.mp (isSome_unigram?.mpr member)
  obtain ⟨token, terminal, place, read, found⟩ := represents.recordsOf_eq known
  rw [found]
  refine .cons (fun extent among => ?_) ?_
  · obtain ⟨relation, inside, rfl⟩ := List.mem_map.mp among
    obtain ⟨target, _, holds⟩ := represents.holds_of_mem_followers place inside
    exact orderly.apart (by simp) (.unigram known place read) holds
  · have increasing := represents.followers_increasing token
    rw [List.pairwise_map] at increasing ⊢
    refine increasing.imp_of_mem fun {first second} inside insideToo less => ?_
    obtain ⟨target, placeFirst, holds⟩ := represents.holds_of_mem_followers place inside
    obtain ⟨other, placeSecond, holdsOther⟩ := represents.holds_of_mem_followers place insideToo
    refine orderly.apart ?_ holds holdsOther
    intro same
    cases same
    exact absurd (Option.some.inj (placeFirst.symm.trans placeSecond)) (Nat.ne_of_lt less)

theorem Represents.currentRecords_eq (represents : dictionary.Represents vocabulary) :
    dictionary.currentRecords = vocabulary.spelled.flatMap dictionary.recordsOf := by
  rw [currentRecords, represents.visited]

/-- Each word has a record, and so has each bigram: whatever is counted of records by their lengths is
that of all unigrams and of all bigrams. -/
theorem Represents.sum_currentRecords (represents : dictionary.Represents vocabulary)
    (weight : Nat → Nat) :
    (dictionary.currentRecords.map fun extent => weight extent.length).sum =
      (vocabulary.words.map fun entry => weight (unigramSize dictionary.version entry.2)).sum +
        vocabulary.bigrams.size * weight (BigramRecord.size dictionary.version) := by
  have distinct := represents.content.distinct
  have each : ∀ entry ∈ vocabulary.words,
      ((dictionary.recordsOf entry.1).map fun extent => weight extent.length).sum =
        weight (unigramSize dictionary.version entry.2) +
          (vocabulary.bigramsOf entry.1).length * weight (BigramRecord.size dictionary.version) := by
    intro entry among
    obtain ⟨token, _, place, _, found⟩ :=
      represents.recordsOf_eq ((unigram?_eq_some distinct).mpr among)
    rw [found, List.map_cons, List.sum_cons, List.map_map, ← represents.length_followers place]
    simp [Function.comp_def]
  have pairs : (vocabulary.words.map fun entry => (vocabulary.bigramsOf entry.1).length).sum =
      vocabulary.bigrams.size := by
    rw [← represents.content.length_pairs, Vocabulary.pairs, spelled, List.length_flatMap,
      List.map_map]
    simp only [List.length_map, Function.comp_def]
  rw [represents.currentRecords_eq, spelled, List.flatMap_map, List.map_flatMap, List.flatMap_def,
    List.sum_flatten, List.map_map, ← pairs]
  refine (congrArg List.sum (List.map_congr_left each)).trans ?_
  rw [List.sum_map_add, List.sum_map_mul_right]

/-- All records together take the bytes of the unigrams and of the bigrams. -/
theorem Represents.sum_length_currentRecords (represents : dictionary.Represents vocabulary) :
    (dictionary.currentRecords.map Extent.length).sum =
      recordBytes dictionary.version vocabulary :=
  represents.sum_currentRecords id

/-- There are as many records as unigrams and bigrams are counted. -/
theorem Represents.length_currentRecords (represents : dictionary.Represents vocabulary) :
    dictionary.currentRecords.length =
      dictionary.content.unigramCount + dictionary.content.bigramCount := by
  have counted := represents.sum_currentRecords fun _ => 1
  rw [represents.content.unigramCount, represents.content.bigramCount]
  simpa using counted

/-- No two of them share a byte, and all lie inside the buffer. -/
theorem Represents.currentRecords_apart (represents : dictionary.Represents vocabulary)
    (orderly : dictionary.content.Orderly dictionary.version vocabulary) :
    dictionary.currentRecords.Pairwise Extent.Apart ∧
      ∀ extent ∈ dictionary.currentRecords,
        extent.first + extent.length ≤ dictionary.content.records.size := by
  rw [represents.currentRecords_eq]
  refine ⟨List.pairwise_flatMap.mpr
    ⟨fun word => represents.pairwise_recordsOf orderly, ?_⟩, fun extent among => ?_⟩
  · refine represents.content.distinct.imp_of_mem fun {first second} member memberToo differ => ?_
    intro extent among further amongToo
    obtain ⟨_, holds⟩ := represents.holds_of_mem_recordsOf member among
    obtain ⟨_, holdsToo⟩ := represents.holds_of_mem_recordsOf memberToo amongToo
    exact orderly.apart (fun same => differ (congrArg Prod.fst same)) holds holdsToo
  · obtain ⟨word, member, found⟩ := List.mem_flatMap.mp among
    obtain ⟨_, holds⟩ := represents.holds_of_mem_recordsOf member found
    exact holds.le_size represents.content

end Current

end Dictionary

end Lexicon

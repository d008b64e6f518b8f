/-
Module: Lexicon.Proofs.Dictionary.Headroom
Layer: Proofs
Purpose: As long as compaction is not asked for, there is room for a word and a bigram, whatever the
  dictionary was opened from, and so no entry of a batch is refused for want of room.
Imports: Lexicon.Proofs.Dictionary.Reservation
Trusted boundary: none
Main exports: Configuration.Ample, Dictionary.Unhindered, Dictionary.AllUnhindered,
  Dictionary.Attained.silent_unhindered
-/
import Lexicon.Proofs.Dictionary.Reservation

namespace Lexicon

open Vocabulary (unigramSize recordSize keyRoom)

namespace Configuration

/-- Limits that keep the usual margin between the bytes at which compaction is asked for and a
capacity that offsets can tell apart. -/
structure Ample (limits : Configuration) : Prop where
  capacity : limits.capacity ≤ Dictionary.maxBufferBytes
  margin : limits.compactionThreshold + margin ≤ limits.capacity

/-- From a mebibyte on the limits for a given capacity are such. -/
theorem ample_ofCapacity {capacity : Nat} (enough : 1024 * 1024 ≤ capacity)
    (bounded : capacity ≤ Dictionary.maxBufferBytes) : (ofCapacity capacity).Ample := by
  refine ⟨bounded, ?_⟩
  simp only [ofCapacity, Configuration.margin]
  omega

theorem ample_standard : standard.Ample := ample_ofCapacity (by decide) (by decide)

end Configuration

namespace Dictionary

/-! ### The largest demands -/

/-- The most bytes that are reserved for a unigram that can be stored: its record with all shortcuts,
and a new word of the largest length. -/
def mostUnigramRoom : Nat := 86540

/-- The most bytes that are reserved for a bigram. -/
def mostBigramRoom : Nat := 1543

theorem unigramSize_le {unigram : Unigram} (storable : unigram.Storable) (version : FormatVersion) :
    unigramSize version unigram ≤ 49479 := by
  have short : maxWordLength = 48 := rfl
  have most : maxShortcuts = 255 := rfl
  have few := storable.few
  have targets : (unigram.shortcuts.map fun shortcut => 2 + 4 * shortcut.target.length).sum ≤
      unigram.shortcuts.length * 194 := by
    have each : ∀ size ∈ unigram.shortcuts.map fun shortcut => 2 + 4 * shortcut.target.length,
        size ≤ 194 := by
      simp only [List.forall_mem_map]
      intro shortcut among
      have length := (storable.target shortcut among).2
      omega
    simpa using List.sum_le_card_nsmul _ 194 each
  have history : (if version.hasHistory then 6 else 0) ≤ 6 := by
    split
    next => exact Nat.le_refl _
    next => exact Nat.zero_le _
  rw [unigramSize]
  omega

theorem unigramDemand_le {dictionary : Dictionary} {word : Word} {unigram : Unigram}
    (storableWord : word.Storable) (storable : unigram.Storable) :
    (dictionary.unigramDemand word unigram).room ≤ mostUnigramRoom := by
  have size := unigramSize_le storable dictionary.version
  have short : maxWordLength = 48 := rfl
  have length := storableWord.2
  have most : mostUnigramRoom = 86540 := rfl
  simp only [unigramDemand, recordSize, Vocabulary.keyRoom_eq]
  split
  next => omega
  next => omega

theorem bigramDemand_le (dictionary : Dictionary) (first second : Word) :
    (dictionary.bigramDemand first second).room ≤ mostBigramRoom := by
  have size : BigramRecord.size dictionary.version ≤ 7 := by
    cases dictionary.version with
    | plain => decide
    | historical => decide
  have most : mostBigramRoom = 1543 := rfl
  simp only [bigramDemand, Vocabulary.keyRoom_eq]
  split
  next => omega
  next => omega

/-! ### One word and one bigram -/

/-- An answer that tells neither of a lack of room nor of a limit that is reached. -/
def Unhindered (answer : Except Error Unit) : Prop :=
  ∀ error, answer = .error error → error.tellsOfRoom = false

/-- A dictionary that accepts changes within ample limits, and does not ask to be compacted. -/
structure Silent (dictionary : Dictionary) : Prop where
  ample : dictionary.configuration.Ample
  updatable : dictionary.updatable = true
  silent : dictionary.needsCompaction true = false

variable {dictionary : Dictionary}

/-- As long as compaction is not asked for, the bytes in use are below the threshold, and another word
and another bigram are allowed. -/
theorem Silent.below (silent : dictionary.Silent) :
    dictionary.usedBytes < dictionary.configuration.compactionThreshold ∧
      dictionary.content.unigramCount < dictionary.configuration.maxUnigrams ∧
      dictionary.content.bigramCount < dictionary.configuration.maxBigrams := by
  have silence := silent.silent
  simpa [needsCompaction, silent.updatable, and_assoc] using silence

/-- Up to the margin there is room. -/
theorem Silent.within (silent : dictionary.Silent) {room : Nat}
    (small : room ≤ Configuration.margin) :
    dictionary.configuration.compactionThreshold + room ≤ ceiling dictionary.configuration := by
  rw [ceiling, Nat.min_eq_left silent.ample.capacity]
  exact Nat.le_trans (Nat.add_le_add_left small _) silent.ample.margin

/-- Where another thing is allowed and there is room, nothing is declined for want of room. -/
theorem unhindered_of_declined {demand : Demand} {error : Error}
    (allowed : demand.count < demand.most)
    (roomy : dictionary.usedBytes + demand.room ≤ ceiling dictionary.configuration)
    (declined : Declined dictionary demand error) : error.tellsOfRoom = false := by
  cases declined with
  | limited reached => exact absurd allowed (Nat.not_lt.mpr reached)
  | crowded lacking => exact absurd roomy (Nat.not_le.mpr lacking)
  | unrelated unrelated => exact unrelated

/-- Adding a word is not hindered.  It takes no more than a part of the margin, also when it is
refused. -/
theorem Silent.addUnigram (silent : dictionary.Silent) (attained : Attained dictionary)
    (word : Word) {unigram : Unigram} (few : unigram.shortcuts.length ≤ maxShortcuts) :
    Unhindered ((Dictionary.addUnigram word unigram).apply dictionary).1 ∧
      ((Dictionary.addUnigram word unigram).apply dictionary).2.usedBytes ≤
        dictionary.usedBytes + mostUnigramRoom ∧
      ((Dictionary.addUnigram word unigram).apply dictionary).2.content.bigramCount =
        dictionary.content.bigramCount := by
  have sustains := attained.sustains
  generalize done : (Dictionary.addUnigram word unigram).apply dictionary = outcome
  obtain ⟨answer, after⟩ := outcome
  obtain ⟨stored, declined⟩ :=
    (meets_addUnigram sustains word unigram).outcome (.refl dictionary) done
  have room : checkUnigram word unigram = .ok () →
      (dictionary.unigramDemand word unigram).room ≤ mostUnigramRoom := by
    intro checked
    obtain ⟨storableWord, storable⟩ := checkUnigram_eq_ok.mp checked
    exact unigramDemand_le storableWord storable
  cases answer with
  | ok =>
      obtain ⟨checked, housed, kept⟩ := stored () rfl
      exact ⟨nofun, Nat.le_trans housed.growth (Nat.add_le_add_left (room checked) _),
        bigramCount_of_stored kept⟩
  | error error =>
      refine ⟨?_, ?_⟩
      · rintro _ ⟨⟩
        rcases declined error rfl with unstorable | ⟨checked, declined⟩
        · cases unstorable with
          | crammed many => exact absurd few (Nat.not_le.mpr many)
          | unrelated unrelated => exact unrelated
        · obtain ⟨used, unigrams, _⟩ := silent.below
          refine unhindered_of_declined unigrams ?_ declined
          exact Nat.le_trans (Nat.add_le_add used.le (room checked)) (silent.within (by decide))
      · have spared := spares_addUnigram sustains word unigram dictionary error after (.inl rfl) done
        rcases spared with rfl | rfl
        · exact ⟨Nat.le_add_right _ _, rfl⟩
        · exact ⟨Nat.le_add_right _ _, rfl⟩

/-- A change that leaves the terms as they are where it is accepted, and all alone where it is refused,
never changes the terms. -/
theorem terms_of_spares {change : Mutation Dictionary Unit} (spares : Spares dictionary change)
    (stored : ∀ {after : Dictionary}, change.apply dictionary = (.ok (), after) →
      after.terms = dictionary.terms) :
    (change.apply dictionary).2.terms = dictionary.terms := by
  cases done : change.apply dictionary with
  | mk answer after =>
      cases answer with
      | ok => exact stored done
      | error error =>
          rcases spares dictionary error after (.inl rfl) done with rfl | rfl
          · rfl
          · rfl

/-- What is added changes nothing in the terms, whether it is accepted or refused. -/
theorem terms_addUnigram (attained : Attained dictionary) (word : Word) (unigram : Unigram) :
    ((Dictionary.addUnigram word unigram).apply dictionary).2.terms = dictionary.terms := by
  have sustains := attained.sustains
  refine terms_of_spares (spares_addUnigram sustains word unigram) fun done => ?_
  have stored := ((meets_addUnigram sustains word unigram).outcome (.refl dictionary) done).1
  exact (stored () rfl).2.1.terms

theorem terms_addBigram (attained : Attained dictionary) (first : Word) (bigram : Bigram) :
    ((Dictionary.addBigram first bigram).apply dictionary).2.terms = dictionary.terms := by
  have sustains := attained.sustains
  refine terms_of_spares (spares_addBigram sustains first bigram) fun done => ?_
  have stored := ((meets_addBigram sustains first bigram).outcome (.refl dictionary) done).1
  exact (stored () rfl).1.terms

/-- A bigram that is added after a word is not hindered. -/
theorem Silent.addBigram (silent : dictionary.Silent) (attained : Attained dictionary)
    (word : Word) {unigram : Unigram} (few : unigram.shortcuts.length ≤ maxShortcuts)
    (first : Word) (bigram : Bigram) :
    Unhindered ((Dictionary.addBigram first bigram).apply
      ((Dictionary.addUnigram word unigram).apply dictionary).2).1 := by
  have attainedAfter : Attained ((Dictionary.addUnigram word unigram).apply dictionary).2 :=
    attained.performed [] (.request (.addUnigram word unigram))
  obtain ⟨_, growth, count⟩ := silent.addUnigram attained word few
  have limits : ((Dictionary.addUnigram word unigram).apply dictionary).2.configuration =
      dictionary.configuration := congrArg Vocabulary.Terms.limits (terms_addUnigram attained _ _)
  generalize ((Dictionary.addUnigram word unigram).apply dictionary).2 = middle at *
  obtain ⟨used, _, bigrams⟩ := silent.below
  intro error refused
  have declined := ((meets_addBigram attainedAfter.sustains first bigram).outcome (.refl middle)
    (Prod.ext refused rfl)).2 error rfl
  refine unhindered_of_declined (show _ < middle.configuration.maxBigrams from ?_) ?_ declined
  · rw [limits]
    exact Nat.lt_of_le_of_lt count.le bigrams
  · rw [limits]
    refine Nat.le_trans (Nat.add_le_add growth (bigramDemand_le middle _ _)) ?_
    refine Nat.le_trans (Nat.add_le_add_right (Nat.add_le_add_right used.le _) _) ?_
    rw [Nat.add_assoc]
    exact silent.within (by decide)

/-! ### Batches -/

theorem attained_addEntry (attained : Attained dictionary) (entry : BatchEntry) :
    Attained (dictionary.addEntry entry) := by
  have added : Attained ((Dictionary.addUnigram entry.word entry.unigram).apply dictionary).2 :=
    attained.performed [] (.request (.addUnigram entry.word entry.unigram))
  rw [addEntry]
  cases entry.previous with
  | none => exact added
  | some previous => exact added.performed [] (.request (.addBigram previous entry.bigram))

theorem terms_addEntry (attained : Attained dictionary) (entry : BatchEntry) :
    (dictionary.addEntry entry).terms = dictionary.terms := by
  have same := terms_addUnigram attained entry.word entry.unigram
  have added : Attained ((Dictionary.addUnigram entry.word entry.unigram).apply dictionary).2 :=
    attained.performed [] (.request (.addUnigram entry.word entry.unigram))
  rw [addEntry]
  cases entry.previous with
  | none => exact same
  | some previous => exact (terms_addBigram added previous entry.bigram).trans same

/-- Neither the word nor the bigram of an entry is hindered. -/
def EntryUnhindered (dictionary : Dictionary) (entry : BatchEntry) : Prop :=
  Unhindered ((addUnigram entry.word entry.unigram).apply dictionary).1 ∧
    ∀ previous, entry.previous = some previous →
      Unhindered ((addBigram previous entry.bigram).apply
        ((addUnigram entry.word entry.unigram).apply dictionary).2).1

/-- An entry of a batch has one shortcut at most. -/
theorem shortcuts_entry (entry : BatchEntry) :
    entry.unigram.shortcuts.length ≤ maxShortcuts := by
  simp only [BatchEntry.unigram]
  split
  next => exact Nat.zero_le _
  next =>
    split
    next => exact Nat.zero_le _
    next => exact Nat.succ_le_succ (Nat.zero_le _)

theorem Silent.addEntry (silent : dictionary.Silent) (attained : Attained dictionary)
    (entry : BatchEntry) : EntryUnhindered dictionary entry :=
  ⟨(silent.addUnigram attained entry.word (shortcuts_entry entry)).1, fun previous _ =>
    silent.addBigram attained entry.word (shortcuts_entry entry) previous entry.bigram⟩

/-- No entry is hindered when they are added one after the other. -/
def AllUnhindered : Dictionary → List BatchEntry → Prop
  | _, [] => True
  | dictionary, entry :: entries =>
      EntryUnhindered dictionary entry ∧ AllUnhindered (dictionary.addEntry entry) entries

/-- The entries that are processed are those up to the first after which compaction is asked for, and
none of them is hindered.  The induction is on the entries that are left: each one is added to a
dictionary that does not ask to be compacted. -/
theorem Silent.addEntriesFrom (entries : List BatchEntry) :
    ∀ {dictionary : Dictionary} (index : Nat), dictionary.Silent → Attained dictionary →
      ∃ processed, processed <+: entries ∧
        Dictionary.addEntriesFrom index entries dictionary =
          (index + processed.length, processed.foldl Dictionary.addEntry dictionary) ∧
        AllUnhindered dictionary processed := by
  induction entries with
  | nil => exact fun index _ _ => ⟨[], List.nil_prefix, rfl, trivial⟩
  | cons entry entries ih =>
      intro dictionary index silent attained
      have here := silent.addEntry attained entry
      have terms := terms_addEntry attained entry
      rw [Dictionary.addEntriesFrom]
      split
      next => exact ⟨[entry], List.prefix_append [entry] entries, rfl, here, trivial⟩
      next quiet =>
        have limits : (dictionary.addEntry entry).configuration = dictionary.configuration :=
          congrArg Vocabulary.Terms.limits terms
        have ample : (dictionary.addEntry entry).configuration.Ample := limits ▸ silent.ample
        have updatable : (dictionary.addEntry entry).updatable = true :=
          (congrArg Vocabulary.Terms.updatable terms).trans silent.updatable
        obtain ⟨processed, begins, added, unhindered⟩ :=
          ih (index + 1) ⟨ample, updatable, Bool.eq_false_iff.mpr quiet⟩
            (attained_addEntry attained entry)
        refine ⟨entry :: processed, (List.cons_prefix_cons.mpr ⟨rfl, begins⟩), ?_, here, unhindered⟩
        rw [added, List.length_cons, List.foldl_cons, Nat.add_assoc, Nat.add_comm 1]

/-- As long as a dictionary within ample limits does not ask to be compacted, whatever it was opened
from, neither a word nor a bigram after it is refused for want of room or for a limit, and so none of
the entries of a batch that are processed is.  The usual limits are ample, and so are those for a
capacity from a mebibyte on. -/
theorem Attained.silent_unhindered (attained : Attained dictionary) (silent : dictionary.Silent) :
    (∀ word unigram first bigram, unigram.shortcuts.length ≤ maxShortcuts →
        Unhindered ((addUnigram word unigram).apply dictionary).1 ∧
          Unhindered ((addBigram first bigram).apply
            ((addUnigram word unigram).apply dictionary).2).1) ∧
      (∀ entries start, ∃ processed, processed <+: entries.drop start ∧
        (dictionary.addEntries entries start).2 = processed.foldl addEntry dictionary ∧
        (start < entries.length →
          (dictionary.addEntries entries start).1 = start + processed.length) ∧
        AllUnhindered dictionary processed) ∧
      (∀ capacity, 1024 * 1024 ≤ capacity → capacity ≤ maxBufferBytes →
        (Configuration.ofCapacity capacity).Ample) ∧
      Configuration.standard.Ample := by
  refine ⟨fun word unigram first bigram few => ?_, fun entries start => ?_,
    fun _ => Configuration.ample_ofCapacity, Configuration.ample_standard⟩
  · exact ⟨(silent.addUnigram attained word few).1, silent.addBigram attained word few first bigram⟩
  · rw [addEntries]
    split
    next behind => exact ⟨[], List.nil_prefix, rfl, fun before => absurd behind (by omega), trivial⟩
    next =>
      obtain ⟨processed, begins, added, unhindered⟩ :=
        Silent.addEntriesFrom (entries.drop start) start silent attained
      rw [added]
      exact ⟨processed, begins, rfl, fun _ => rfl, unhindered⟩

/-- Two letters, of which the second follows the first, and one that cannot be stored. -/
def letters : List BatchEntry :=
  [{ word := [97], probability := 7 },
    { previous := some [97], word := [98], probability := 8, bigramProbability := 9 },
    { word := [], probability := 7 }]

/-- In a dictionary of a mebibyte all of them are processed, and nothing is refused for want of
room. -/
theorem Attained.silent_unhindered_letters :
    ∃ dictionary, create 403 "en" default (.ofCapacity (1024 * 1024)) = .ok dictionary ∧
      dictionary.Silent ∧ (dictionary.addEntries letters 0).1 = 3 ∧
      ∃ processed, processed <+: letters ∧ processed.length = 3 ∧
        AllUnhindered dictionary processed := by
  have created : create 403 "en" default (.ofCapacity (1024 * 1024)) =
      .ok (empty ⟨.historical, "en", default⟩ (.ofCapacity (1024 * 1024))) := rfl
  have silent : Silent (empty ⟨.historical, "en", default⟩ (.ofCapacity (1024 * 1024))) :=
    ⟨Configuration.ample_ofCapacity (by decide) (by decide), rfl, by decide⟩
  have position : ((empty ⟨.historical, "en", default⟩ (.ofCapacity (1024 * 1024))).addEntries
      letters 0).1 = 3 := by decide +kernel
  obtain ⟨processed, begins, _, counted, unhindered⟩ :=
    ((Attained.created created).silent_unhindered silent).2.1 letters 0
  rw [counted (by decide), Nat.zero_add] at position
  exact ⟨_, created, silent, by rw [counted (by decide), Nat.zero_add, position], processed, begins,
    position, unhindered⟩

end Dictionary

end Lexicon

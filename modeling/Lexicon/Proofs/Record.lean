/-
Module: Lexicon.Proofs.Record
Layer: Proofs
Purpose: Records are read back as they were written, wherever they stand in a buffer.
Imports: Lexicon.Dictionary.Change, Lexicon.Proofs.Bytes.Reads
Trusted boundary: none
Main exports: Terminal.readAt_of_shows, Unigram.Storable, Unigram.kept, Unigram.readAt_of_shows,
  BigramRecord.encode, BigramRecord.readAt_of_shows, Dictionary.checkUnigram_eq_ok
-/
import Lexicon.Dictionary.Change
import Lexicon.Proofs.Bytes.Reads

namespace Lexicon

open Reader

/-! ### What can be stored -/

/-- The length of a word that can be stored. -/
def Word.Storable (word : Word) : Prop := word ≠ [] ∧ word.length ≤ maxWordLength

/-- The parts of a unigram that can be stored. -/
structure Unigram.Storable (unigram : Unigram) : Prop where
  probability : isProbability unigram.probability = true
  few : unigram.shortcuts.length ≤ Dictionary.maxShortcuts
  target : ∀ shortcut ∈ unigram.shortcuts, Word.Storable shortcut.target
  weight : ∀ shortcut ∈ unigram.shortcuts, isProbability shortcut.probability = true

namespace Dictionary

theorem checkWord_eq_ok {word : Word} : checkWord word = .ok () ↔ Word.Storable word := by
  unfold checkWord Word.Storable
  cases word with
  | nil => simp
  | cons first rest => simp

theorem checkProbability_eq_ok {probability : Int} :
    checkProbability probability = .ok () ↔ isProbability probability = true := by
  simp [checkProbability]

theorem checkShortcut_eq_ok {shortcut : Shortcut} :
    checkShortcut shortcut = .ok () ↔
      Word.Storable shortcut.target ∧ isProbability shortcut.probability = true := by
  rw [← checkWord_eq_ok, ← checkProbability_eq_ok, checkShortcut]
  cases checkWord shortcut.target with
  | error error => simp [bind, Except.bind]
  | ok => simp [bind, Except.bind]

/-- What is checked of a unigram is that it can be stored. -/
theorem checkUnigram_eq_ok {word : Word} {unigram : Unigram} :
    checkUnigram word unigram = .ok () ↔ Word.Storable word ∧ unigram.Storable := by
  have parts : checkUnigram word unigram = .ok () ↔
      checkWord word = .ok () ∧ checkProbability unigram.probability = .ok () ∧
        unigram.shortcuts.length ≤ maxShortcuts ∧
        unigram.shortcuts.forM checkShortcut = .ok () := by
    rw [checkUnigram]
    cases checkWord word with
    | error error => simp [bind, Except.bind]
    | ok =>
        cases checkProbability unigram.probability with
        | error error => simp [bind, Except.bind]
        | ok =>
            simp only [bind, Except.bind]
            split
            next many => simp [Nat.not_le_of_lt many]
            next few => simp [Nat.le_of_not_lt few]
  rw [parts, checkWord_eq_ok, checkProbability_eq_ok, forM_eq_ok_iff]
  constructor
  · rintro ⟨valid, probability, few, each⟩
    exact ⟨valid, probability, few,
      fun shortcut among => (checkShortcut_eq_ok.mp (each shortcut among)).1,
      fun shortcut among => (checkShortcut_eq_ok.mp (each shortcut among)).2⟩
  · rintro ⟨valid, storable⟩
    refine ⟨valid, storable.probability, storable.few, ?_⟩
    intro shortcut among
    exact checkShortcut_eq_ok.mpr ⟨storable.target shortcut among, storable.weight shortcut among⟩

theorem checkBigram_eq_ok {first : Word} {bigram : Bigram} :
    checkBigram first bigram = .ok () ↔
      Word.Storable first ∧ Word.Storable bigram.target ∧
        isProbability bigram.probability = true := by
  rw [← checkWord_eq_ok, ← checkWord_eq_ok, ← checkProbability_eq_ok, checkBigram]
  cases checkWord first with
  | error error => simp [bind, Except.bind]
  | ok =>
      cases checkWord bigram.target with
      | error error => simp [bind, Except.bind]
      | ok => simp [bind, Except.bind]

end Dictionary

/-! ### Parts of records -/

/-- A probability that can be stored is read back from its byte. -/
theorem toNat_probabilityByte {probability : Int} (storable : isProbability probability = true) :
    ((probabilityByte probability).toNat : Int) = probability := by
  simp only [isProbability, Bool.and_eq_true, decide_eq_true_eq] at storable
  have limit : maxProbability = 255 := rfl
  rw [probabilityByte, UInt8.toNat_ofNat']
  omega

/-- What a format keeps of a history. -/
def History.kept (version : FormatVersion) (history : History) : History :=
  if version.hasHistory then history else .unknown

@[simp] theorem History.kept_kept (version : FormatVersion) (history : History) :
    (history.kept version).kept version = history.kept version := by
  cases version <;> rfl

/-- A format does not store what it does not keep. -/
@[simp] theorem History.encodeFor_kept (version : FormatVersion) (history : History) :
    (history.kept version).encodeFor version = history.encodeFor version := by
  cases version <;> simp [kept, encodeFor, FormatVersion.hasHistory]

theorem History.reads (version : FormatVersion) (history : History) :
    Reads (History.readFor version) (history.encodeFor version) (history.kept version) := by
  cases version with
  | plain => exact Reads.pure _
  | historical =>
      have parts : Reads History.read
          (LittleEndian.encodeSigned history.timestamp ++
            ([history.level] ++ ([history.count] ++ []))) history :=
        (Reads.signed _).bind ((Reads.byte _).bind ((Reads.byte _).bind (Reads.pure _)))
      exact parts

theorem Word.reads {word : Word} :
    Reads (times signed word.length) (word.flatMap LittleEndian.encodeSigned) word :=
  Reads.times fun codePoint _ => Reads.signed codePoint

theorem Word.toNat_length {word : Word} (storable : word.Storable) :
    (UInt8.ofNat word.length).toNat = word.length := by
  have limit : maxWordLength = 48 := rfl
  have short := storable.2
  rw [UInt8.toNat_ofNat']
  omega

@[simp] theorem Word.length_encode (word : Word) : word.encode.length = 1 + 4 * word.length := by
  have points : (word.flatMap LittleEndian.encodeSigned).length = 4 * word.length := by
    induction word with
    | nil => rfl
    | cons first rest ih =>
        rw [List.flatMap_cons, List.length_append, ih, List.length_cons, LittleEndian.encodeSigned,
          LittleEndian.length_encode]
        omega
  rw [Word.encode, List.length_cons, points]
  omega

/-! ### Terminal records -/

namespace Terminal

@[simp] theorem length_encode (terminal : Terminal) : terminal.encode.length = terminal.size := by
  simp [encode, size, pointerField]

theorem reads {terminal : Terminal} (storable : terminal.word.Storable)
    (fits : terminal.unigram < LittleEndian.span 4) : Reads read terminal.encode terminal := by
  have length := Word.toNat_length storable
  have some : terminal.word.length ≠ 0 := fun empty => storable.1 (List.length_eq_zero_iff.mp empty)
  have parts : Reads read ([UInt8.ofNat terminal.word.length] ++
      (terminal.word.flatMap LittleEndian.encodeSigned ++
        (LittleEndian.encode 4 terminal.unigram ++ []))) terminal := by
    refine (Reads.byte _).bind ?_
    rw [length, if_neg (by simpa [some] using storable.2)]
    exact Word.reads.bind ((Reads.number fits).bind (Reads.pure _))
  rw [List.append_nil] at parts
  simpa [encode, Word.encode] using parts

/-- A terminal record is read where a buffer shows it. -/
theorem readAt_of_shows {terminal : Terminal} {buffer : ByteArray} {offset : Nat}
    (storable : terminal.word.Storable) (fits : terminal.unigram < LittleEndian.span 4)
    (shows : Buffer.Shows buffer offset terminal.encode) : readAt buffer offset = some terminal := by
  rw [readAt, runAt_of_shows (reads storable fits) shows]
  rfl

end Terminal

/-! ### Unigram records -/

namespace Unigram

variable {unigram : Unigram}

/-- What a format keeps of a unigram. -/
def kept (version : FormatVersion) (unigram : Unigram) : Unigram :=
  { unigram with history := unigram.history.kept version }

@[simp] theorem kept_kept (version : FormatVersion) (unigram : Unigram) :
    (unigram.kept version).kept version = unigram.kept version := by
  simp [kept]

@[simp] theorem encode_kept (version : FormatVersion) (unigram : Unigram) :
    (unigram.kept version).encode version = unigram.encode version := by
  have flags : (unigram.kept version).flags = unigram.flags := rfl
  have history : (unigram.kept version).history = unigram.history.kept version := rfl
  rw [encode, encode, flags, history, History.encodeFor_kept]
  rfl

theorem Storable.kept (storable : unigram.Storable) (version : FormatVersion) :
    (unigram.kept version).Storable :=
  ⟨storable.probability, storable.few, storable.target, storable.weight⟩

theorem flagsNotAWord_flags (unigram : Unigram) :
    flagsNotAWord unigram.flags = unigram.notAWord := by
  unfold flagsNotAWord flags
  cases unigram.notAWord <;> cases unigram.blacklisted <;> rfl

theorem flagsBlacklisted_flags (unigram : Unigram) :
    flagsBlacklisted unigram.flags = unigram.blacklisted := by
  unfold flagsBlacklisted flags
  cases unigram.notAWord <;> cases unigram.blacklisted <;> rfl

theorem reads_shortcut {shortcut : Shortcut} (target : Word.Storable shortcut.target)
    (probability : isProbability shortcut.probability = true) :
    Reads Shortcut.read shortcut.encode shortcut := by
  have length := Word.toNat_length target
  have weight := toNat_probabilityByte probability
  have parts : Reads Shortcut.read ([probabilityByte shortcut.probability] ++
      ([UInt8.ofNat shortcut.target.length] ++
        (shortcut.target.flatMap LittleEndian.encodeSigned ++ []))) shortcut := by
    refine (Reads.byte _).bind ((Reads.byte _).bind ?_)
    rw [length, weight]
    exact Word.reads.bind (Reads.pure _)
  rw [List.append_nil] at parts
  exact parts

theorem reads (version : FormatVersion) (storable : unigram.Storable) :
    Reads (read version) (unigram.encode version) (unigram.kept version) := by
  have count : (UInt8.ofNat unigram.shortcuts.length).toNat = unigram.shortcuts.length := by
    have limit : Dictionary.maxShortcuts = 255 := rfl
    have few := storable.few
    rw [UInt8.toNat_ofNat']
    omega
  have weight := toNat_probabilityByte storable.probability
  have shortcuts : Reads (times Shortcut.read unigram.shortcuts.length)
      (unigram.shortcuts.flatMap Shortcut.encode) unigram.shortcuts :=
    Reads.times fun shortcut among =>
      reads_shortcut (storable.target shortcut among) (storable.weight shortcut among)
  have parts : Reads (read version) ([unigram.flags] ++ ([probabilityByte unigram.probability] ++
      (unigram.history.encodeFor version ++ ([UInt8.ofNat unigram.shortcuts.length] ++
        (unigram.shortcuts.flatMap Shortcut.encode ++ []))))) (unigram.kept version) := by
    refine (Reads.byte _).bind ((Reads.byte _).bind ((History.reads version _).bind
      ((Reads.byte _).bind ?_)))
    rw [count, weight, flagsNotAWord_flags, flagsBlacklisted_flags]
    exact shortcuts.bind (Reads.pure _)
  rw [List.append_nil] at parts
  simpa [encode] using parts

/-- A unigram record is read where a buffer shows it. -/
theorem readAt_of_shows {version : FormatVersion} {buffer : ByteArray} {offset : Nat}
    (storable : unigram.Storable) (shows : Buffer.Shows buffer offset (unigram.encode version)) :
    readAt version buffer offset =
      some (unigram.kept version, (unigram.encode version).length) :=
  runAt_of_shows (reads version storable) shows

/-- Flags and probability are read where a buffer shows the whole record. -/
theorem readHead_of_shows {version : FormatVersion} {buffer : ByteArray} {offset : Nat}
    (shows : Buffer.Shows buffer offset (unigram.encode version)) :
    runAt readHead buffer offset =
      some ((unigram.flags, (probabilityByte unigram.probability).toNat), 2) := by
  have head : Reads readHead [unigram.flags, probabilityByte unigram.probability]
      (unigram.flags, (probabilityByte unigram.probability).toNat) :=
    (Reads.byte _).bind ((Reads.byte _).bind (Reads.pure _))
  rw [encode, List.append_assoc] at shows
  exact runAt_of_shows head shows.left

end Unigram

/-! ### Bigram records -/

/-- What is stored of a bigram. -/
def Bigram.record (version : FormatVersion) (bigram : Bigram) : BigramRecord :=
  { probability := bigram.probability, history := bigram.history.kept version }

namespace BigramRecord

variable {record : BigramRecord}

/-- What a format keeps of a bigram record. -/
def kept (version : FormatVersion) (record : BigramRecord) : BigramRecord :=
  { record with history := record.history.kept version }

/-- The bytes of a bigram record. -/
def encode (version : FormatVersion) (record : BigramRecord) : List UInt8 :=
  probabilityByte record.probability :: record.history.encodeFor version

@[simp] theorem encode_record (version : FormatVersion) (bigram : Bigram) :
    (bigram.record version).encode version = bigram.encode version := by
  simp [encode, Bigram.record, Bigram.encode]

/-- A bigram record that a format keeps is one whose probability fits, without what the format does
not store. -/
structure Storable (version : FormatVersion) (record : BigramRecord) : Prop where
  probability : isProbability record.probability = true
  history : record.history.kept version = record.history

theorem reads {version : FormatVersion} (storable : record.Storable version) :
    Reads (read version) (record.encode version) record := by
  have weight := toNat_probabilityByte storable.probability
  have parts : Reads (read version) ([probabilityByte record.probability] ++
      (record.history.encodeFor version ++ [])) record := by
    refine (Reads.byte _).bind ?_
    rw [weight]
    refine (History.reads version _).bind ?_
    rw [storable.history]
    exact Reads.pure record
  rw [List.append_nil] at parts
  exact parts

/-- A bigram record is read where a buffer shows it. -/
theorem readAt_of_shows {version : FormatVersion} {buffer : ByteArray} {offset : Nat}
    (storable : record.Storable version)
    (shows : Buffer.Shows buffer offset (record.encode version)) :
    readAt version buffer offset = some record := by
  rw [readAt, runAt_of_shows (reads storable) shows]
  rfl

end BigramRecord

end Lexicon

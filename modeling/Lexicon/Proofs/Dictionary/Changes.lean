/-
Module: Lexicon.Proofs.Dictionary.Changes
Layer: Proofs
Purpose: Adding a word to a dictionary that represents a vocabulary adds it to the vocabulary, and is
  accepted exactly when the vocabulary accepts it.
Imports: Lexicon.Proofs.Dictionary.Answers, Lexicon.Proofs.Dictionary.Filing,
  Lexicon.Proofs.Overwriting
Trusted boundary: none
Main exports: Dictionary.Changed, Dictionary.Decides, Roster, Dictionary.Represents.addUnigram
-/
import Lexicon.Proofs.Dictionary.Answers
import Lexicon.Proofs.Dictionary.Filing
import Lexicon.Proofs.Overwriting

namespace Lexicon

open Vocabulary

/-! ### Sizes of records -/

theorem History.length_encodeFor (version : FormatVersion) (history : History) :
    (history.encodeFor version).length = if version.hasHistory then 6 else 0 := by
  cases version <;>
    simp [encodeFor, encode, FormatVersion.hasHistory, LittleEndian.encodeSigned]

theorem Unigram.length_encode (version : FormatVersion) (unigram : Unigram) :
    (unigram.encode version).length = unigramSize version unigram := by
  have shortcuts : (unigram.shortcuts.flatMap Shortcut.encode).length =
      (unigram.shortcuts.map fun shortcut => 2 + 4 * shortcut.target.length).sum := by
    rw [List.length_flatMap]
    congr 1
    apply List.map_congr_left
    intro shortcut _
    rw [Shortcut.encode, List.length_cons, Word.length_encode]
    omega
  simp only [encode, List.length_append, List.length_cons, List.length_nil, shortcuts,
    History.length_encodeFor, unigramSize]
  omega

@[simp] theorem BigramRecord.length_encode (version : FormatVersion) (record : BigramRecord) :
    (record.encode version).length = BigramRecord.size version := by
  rw [encode, List.length_cons, History.length_encodeFor]
  cases version <;> rfl

namespace Vocabulary

theorem afford_eq_ok {limits : Configuration} {used requested : Nat} :
    afford limits used requested = .ok () ↔
      used + requested ≤ limits.capacity ∧ used + requested ≤ Dictionary.maxBufferBytes := by
  simp only [afford]
  split
  next exceeded =>
    simp only [reduceCtorEq, false_iff]
    omega
  next =>
    simp only [true_iff]
    omega

theorem keyRoom_eq (keys : Nat) : keyRoom keys = 768 * keys := by
  have slots : Dictionary.slotsPerKey = 48 := rfl
  have bytes : Slot.byteSize = 16 := rfl
  rw [keyRoom, slots, bytes]
  omega

section Storing

variable {vocabulary : Vocabulary}

/-- A word keeps its neighbours when what is known about it is replaced. -/
theorem store_split {word : Word} {old new : Unigram} {before after : List (Word × Unigram)}
    (distinct : vocabulary.spelled.Nodup)
    (split : vocabulary.words = before ++ (word, old) :: after) :
    (vocabulary.store word new).words = before ++ (word, new) :: after := by
  have member : word ∈ vocabulary.spelled := by
    rw [spelled, split]
    simp
  rw [spelled, split, List.map_append, List.map_cons, List.nodup_append, List.nodup_cons] at distinct
  obtain ⟨_, ⟨behind, _⟩, ahead⟩ := distinct
  have others : ∀ {entries : List (Word × Unigram)}, (∀ entry ∈ entries, entry.1 ≠ word) →
      entries.map (fun entry => if entry.1 = word then (word, new) else entry) = entries := by
    intro entries apart
    conv_rhs => rw [← List.map_id entries]
    apply List.map_congr_left
    intro entry among
    rw [if_neg (apart entry among)]
    rfl
  have apartBefore : ∀ entry ∈ before, entry.1 ≠ word := by
    intro entry among
    exact ahead _ (List.mem_map.mpr ⟨entry, among, rfl⟩) _ List.mem_cons_self
  have apartAfter : ∀ entry ∈ after, entry.1 ≠ word := by
    intro entry among same
    exact behind (List.mem_map.mpr ⟨entry, among, same⟩)
  rw [store, if_pos member]
  dsimp only
  rw [split, List.map_append, List.map_cons, others apartBefore, others apartAfter, if_pos rfl]

theorem spelled_store_of_mem {word : Word} (member : word ∈ vocabulary.spelled)
    (unigram : Unigram) : (vocabulary.store word unigram).spelled = vocabulary.spelled := by
  rw [spelled_store, if_pos member]

/-- What is known after a word was stored was known before, or is what was stored. -/
theorem mem_words_store {word other : Word} {stored unigram : Unigram}
    (member : (other, unigram) ∈ (vocabulary.store word stored).words) :
    (other, unigram) = (word, stored) ∨ (other, unigram) ∈ vocabulary.words := by
  unfold store at member
  split at member
  next =>
    obtain ⟨entry, among, same⟩ := List.mem_map.mp member
    split at same
    next => exact Or.inl same.symm
    next => exact Or.inr (same ▸ among)
  next =>
    rcases List.mem_append.mp member with old | new
    · exact Or.inr old
    · exact Or.inl (List.mem_singleton.mp new)

end Storing

end Vocabulary

namespace Dictionary

/-- What changes of a dictionary are subject to. -/
def terms (dictionary : Dictionary) : Terms :=
  ⟨dictionary.version, dictionary.configuration, dictionary.updatable⟩

/-- What a change that was accepted leaves behind: a dictionary that says what the vocabulary says
then, with the same settings, and not larger than by the room that was reserved. -/
structure Changed (before after : Dictionary) (vocabulary : Vocabulary) (room : Nat) : Prop where
  represents : after.Represents vocabulary
  header : after.header = before.header
  configuration : after.configuration = before.configuration
  updatable : after.updatable = before.updatable
  growth : after.usedBytes ≤ before.usedBytes + room

theorem Changed.terms {before after : Dictionary} {vocabulary : Vocabulary} {room : Nat}
    (changed : Changed before after vocabulary room) : after.terms = before.terms := by
  rw [Dictionary.terms, Dictionary.version, changed.header, changed.configuration, changed.updatable]
  rfl

/-- One dictionary has the given content, and is like another one in whatever the content's reading
and the changes of it depend on; it may count other bytes as superseded. -/
structure Rewritten (before after : Dictionary) (content : Content) : Prop where
  content : after.content = content
  header : after.header = before.header
  configuration : after.configuration = before.configuration
  updatable : after.updatable = before.updatable
  damaged : after.damaged = before.damaged

/-- A content that says what the vocabulary says, and fits in the room, makes the change. -/
theorem Rewritten.changed {before after : Dictionary} {content : Content}
    {vocabulary next : Vocabulary} {room : Nat} (rewritten : Rewritten before after content)
    (represents : before.Represents vocabulary) (tells : content.Represents before.version next)
    (growth : content.usedBytes ≤ before.usedBytes + room) : Changed before after next room := by
  obtain ⟨rfl, header, configuration, updatable, damaged⟩ := rewritten
  have version : after.version = before.version := congrArg Header.version header
  exact ⟨⟨version ▸ tells, damaged.trans represents.undamaged⟩, header, configuration, updatable,
    growth⟩

/-- What is represented then is represented in the format from before. -/
theorem Changed.content {before after : Dictionary} {vocabulary : Vocabulary} {room : Nat}
    (changed : Changed before after vocabulary room) :
    after.content.Represents before.version vocabulary := by
  rw [Dictionary.version, ← changed.header]
  exact changed.represents.content

/-- A change is made if it is accepted, and else it is refused and leaves everything as it was. -/
def Decides (accepted : Except Error Unit) (change : Mutation Dictionary Unit) (before : Dictionary)
    (vocabulary : Vocabulary) (room : Nat) : Prop :=
  match accepted with
  | .error error => change.apply before = (.error error, before)
  | .ok () => ∃ after, change.apply before = (.ok (), after) ∧ Changed before after vocabulary room

/-- A change that was made is one that was decided to be made. -/
theorem Decides.made {accepted : Except Error Unit} {change : Mutation Dictionary Unit}
    {before after : Dictionary} {next : Vocabulary} {room : Nat}
    (decided : Decides accepted change before next room)
    (done : change.apply before = (.ok (), after)) :
    accepted = .ok () ∧ Changed before after next room := by
  cases accepted with
  | error error =>
      rw [show change.apply before = _ from decided] at done
      cases done
  | ok =>
      obtain ⟨last, same, changed⟩ := decided
      cases same.symm.trans done
      exact ⟨rfl, changed⟩

theorem reserve_eq (dictionary : Dictionary) (bytes keys : Nat) :
    dictionary.reserve bytes keys =
      afford dictionary.configuration dictionary.usedBytes (bytes + keyRoom keys) := rfl

theorem checkUpdatable_eq (dictionary : Dictionary) :
    dictionary.checkUpdatable = dictionary.terms.allow := rfl

/-- The bytes in use, part by part. -/
theorem usedBytes_eq (dictionary : Dictionary) :
    dictionary.usedBytes = dictionary.content.terminals.size + dictionary.content.records.size +
      dictionary.content.words.slotCount * 16 + dictionary.content.followers.slotCount * 16 := rfl

end Dictionary

/-! ### Contents with a new unigram record -/

/-- A buffer holds some terminal records one after the other, those of the words of a vocabulary. -/
structure Roster (version : FormatVersion) (buffer records : ByteArray) (vocabulary : Vocabulary)
    (terminals : List Terminal) : Prop where
  bytes : Buffer.bytes buffer = terminals.flatMap Terminal.encode
  layout : Layout version records terminals vocabulary.words

namespace Content.Represents

variable {content : Content} {version : FormatVersion} {vocabulary : Vocabulary} {word : Word}
  {unigram : Unigram}

/-- What is known after a word was stored can be stored. -/
theorem storable_store (represents : content.Represents version vocabulary)
    (storableWord : word.Storable) (storable : unigram.Storable) {other : Word} {known : Unigram}
    (among : (other, known) ∈ (vocabulary.store word (unigram.kept version)).words) :
    other.Storable ∧ known.Storable ∧ known.kept version = known := by
  rcases mem_words_store among with same | before
  · cases same
    exact ⟨storableWord, storable.kept _, Unigram.kept_kept _ _⟩
  · exact represents.storable before

/-- A new pointer in the terminal record of a word leaves the other terminal records alone. -/
theorem roster_replaced (represents : content.Represents version vocabulary) {token : Nat}
    {terminal : Terminal} (place : placeIn vocabulary.spelled word = some token)
    (spelled : terminal.word = word) (fits : content.records.size < LittleEndian.span 4)
    (unigram : Unigram) :
    ∃ before found after, found.word = word ∧
      Roster version content.terminals content.records vocabulary (before ++ found :: after) ∧
      Roster version
        (Buffer.overwrite content.terminals (token + terminal.pointerField)
          (LittleEndian.encode 4 content.records.size))
        (Buffer.append content.records (unigram.encode version))
        (vocabulary.store word (unigram.kept version))
        (before ++ ⟨word, content.records.size⟩ :: after) := by
  have member : word ∈ vocabulary.spelled := isSome_placeIn.mp (by rw [place]; rfl)
  obtain ⟨old, known⟩ := Option.isSome_iff_exists.mp (isSome_unigram?.mpr member)
  obtain ⟨terminals, bytes, layout⟩ := represents.layout
  have among := (unigram?_eq_some represents.distinct).mp known
  obtain ⟨before, found, after, wordsBefore, wordsAfter, rfl, split, ahead, names, behind, here⟩ :=
    layout.split represents.distinct among
  have start : token = (before.flatMap Terminal.encode).length :=
    Option.some.inj (place.symm.trans here)
  have same : terminal.word = found.word := spelled.trans names.word.symm
  refine ⟨before, found, after, names.word, ⟨bytes, layout⟩, ?_, ?_⟩
  · have cut : Buffer.bytes content.terminals =
        before.flatMap Terminal.encode ++ found.encode ++ after.flatMap Terminal.encode := by
      rw [bytes, List.flatMap_append, List.flatMap_cons, List.append_assoc]
    have field : terminal.pointerField = found.pointerField := by
      rw [Terminal.pointerField, Terminal.pointerField, same]
    rw [start, field, Terminal.bytes_patch _ cut, List.flatMap_append, List.flatMap_cons,
      Terminal.repoint, names.word, List.append_assoc]
  · rw [store_split represents.distinct split]
    refine List.rel_append (ahead.append _) (.cons ⟨rfl, fits, ?_⟩ (behind.append _))
    rw [Unigram.encode_kept]
    exact Buffer.Shows.appended _ _

/-- A new record behind the others and a new pointer to it replace what is known about a word; its
place, and all other records, stay as they are. -/
theorem replaced (represents : content.Represents version vocabulary) {token : Nat}
    {terminal : Terminal} (place : placeIn vocabulary.spelled word = some token)
    (spelled : terminal.word = word) (storable : unigram.Storable)
    (bounded : content.usedBytes + unigramSize version unigram ≤ Dictionary.maxBufferBytes) :
    Content.Represents
      { content with
        records := Buffer.append content.records (unigram.encode version)
        terminals := Buffer.overwrite content.terminals (token + terminal.pointerField)
          (LittleEndian.encode 4 content.records.size) }
      version (vocabulary.store word (unigram.kept version)) := by
  have length := Unigram.length_encode version unigram
  have member : word ∈ vocabulary.spelled := isSome_placeIn.mp (by rw [place]; rfl)
  have limit : Dictionary.maxBufferBytes < LittleEndian.span 4 := by decide
  have fits : content.records.size < LittleEndian.span 4 := by
    rw [Content.usedBytes] at bounded
    omega
  refine ⟨nodup_spelled_store represents.distinct _ _,
    represents.storable_store (represents.storable_word member) storable, represents.storableBigram,
    ?_, represents.words, ?_, represents.followers, ?_, ?_, ?_, represents.bigramCount, ?_, ?_⟩
  · obtain ⟨_, _, _, _, _, roster⟩ := represents.roster_replaced place spelled fits unigram
    exact ⟨_, roster.bytes, roster.layout⟩
  · intro path key
    rw [spelled_store_of_mem member]
    exact represents.filed path key
  · intro source target record nested has
    rw [spelled_store_of_mem member]
    obtain ⟨bare, first, second, low, high, bigram, one, two, sameSource, sameTarget, related,
      shows⟩ := represents.relation has
    exact ⟨bare, first, second, low, high, bigram, one, two, sameSource, sameTarget, related,
      shows.append _⟩
  · rw [spelled_store_of_mem member]
    exact represents.related
  · rw [← length_spelled, spelled_store_of_mem member, length_spelled]
    exact represents.unigramCount
  · rw [Buffer.size_append]
    exact Nat.le_add_right_of_le represents.recorded
  · simp only [Content.usedBytes, Buffer.size_overwrite, Buffer.size_append, length] at bounded ⊢
    omega

/-- The terminal record of a new word stands behind the others. -/
theorem roster_inserted (represents : content.Represents version vocabulary)
    (new : word ∉ vocabulary.spelled) (fits : content.records.size < LittleEndian.span 4)
    (unigram : Unigram) :
    ∃ terminals,
      Roster version content.terminals content.records vocabulary terminals ∧
      Roster version
        (Buffer.append content.terminals
          (Terminal.encode { word := word, unigram := content.records.size }))
        (Buffer.append content.records (unigram.encode version))
        (vocabulary.store word (unigram.kept version))
        (terminals ++ [⟨word, content.records.size⟩]) := by
  obtain ⟨terminals, bytes, layout⟩ := represents.layout
  refine ⟨terminals, ⟨bytes, layout⟩, ?_, ?_⟩
  · rw [Buffer.bytes_append, bytes, List.flatMap_append, List.flatMap_singleton]
  · rw [store, if_neg new]
    refine List.rel_append (layout.append _) (.cons ⟨rfl, fits, ?_⟩ .nil)
    rw [Unigram.encode_kept]
    exact Buffer.Shows.appended _ _

/-- Records behind the others, and a word that is filed with its token, add a word that is new. -/
theorem inserted (represents : content.Represents version vocabulary)
    (new : word ∉ vocabulary.spelled) (storableWord : word.Storable) (storable : unigram.Storable)
    {words : Forest} (lawful : words.Lawful)
    (filed : ∀ path key, words.at? path key =
      filing (vocabulary.spelled ++ [word]) (path ++ [key]))
    (fits : content.records.size < LittleEndian.span 4)
    (bounded : content.terminals.size + recordSize word + content.records.size +
      unigramSize version unigram + words.usedBytes + content.followers.usedBytes ≤
        Dictionary.maxBufferBytes) :
    Content.Represents
      { content with
        words := words
        terminals := Buffer.append content.terminals
          (Terminal.encode { word := word, unigram := content.records.size })
        records := Buffer.append content.records (unigram.encode version)
        unigramCount := content.unigramCount + 1 }
      version (vocabulary.store word (unigram.kept version)) := by
  have spelled : (vocabulary.store word (unigram.kept version)).spelled =
      vocabulary.spelled ++ [word] := by
    rw [spelled_store, if_neg new]
  have stored : (vocabulary.store word (unigram.kept version)).words =
      vocabulary.words ++ [(word, unigram.kept version)] := by
    rw [store, if_neg new]
  refine ⟨nodup_spelled_store represents.distinct _ _,
    represents.storable_store storableWord storable, represents.storableBigram, ?_, lawful, ?_,
    represents.followers, ?_, ?_, ?_, represents.bigramCount, ?_, ?_⟩
  · obtain ⟨_, _, roster⟩ := represents.roster_inserted new fits unigram
    exact ⟨_, roster.bytes, roster.layout⟩
  · intro path key
    rw [spelled]
    exact filed path key
  · intro source target record nested has
    obtain ⟨bare, first, second, low, high, bigram, one, two, sameSource, sameTarget, related,
      shows⟩ := represents.relation has
    rw [spelled]
    exact ⟨bare, first, second, low, high, bigram, placeIn_append one, placeIn_append two,
      sameSource, sameTarget, related, shows.append _⟩
  · intro first second bigram related
    obtain ⟨low, high, one, two, some⟩ := represents.related related
    rw [spelled]
    exact ⟨low, high, placeIn_append one, placeIn_append two, some⟩
  · rw [stored, List.length_append, represents.unigramCount, List.length_singleton]
  · rw [Buffer.size_append]
    exact Nat.le_add_right_of_le represents.recorded
  · have size : (Terminal.mk word content.records.size).size = recordSize word :=
      (recordSize_eq _).symm
    simp only [Content.usedBytes, Buffer.size_append, Unigram.length_encode, Terminal.length_encode,
      size]
    omega

end Content.Represents

/-! ### Adding a unigram -/

namespace Dictionary

namespace Represents

variable {dictionary : Dictionary} {vocabulary : Vocabulary}

/-- Replacing the unigram record of a word is accepted if there is room for the new one. -/
theorem apply_replaceUnigram (represents : dictionary.Represents vocabulary) {word : Word}
    {token : Nat} {unigram : Unigram} (place : placeIn vocabulary.spelled word = some token)
    (storable : unigram.Storable) :
    Decides
      (afford dictionary.configuration dictionary.usedBytes (unigramSize dictionary.version unigram))
      (replaceUnigram token (unigram.encode dictionary.version)) dictionary
      (vocabulary.store word (unigram.kept dictionary.version))
      (unigramSize dictionary.version unigram) := by
  obtain ⟨old, known, _⟩ := represents.unigram?_of_place place
  obtain ⟨_, terminal, again, spelled, readTerminal, readUnigram, _⟩ := represents.records known
  rw [place] at again
  cases again
  have length := Unigram.length_encode dictionary.version unigram
  simp only [Decides, replaceUnigram, Mutation.apply_bind, Mutation.apply_get, readTerminal,
    apply_reading_pure, Mutation.apply_check, reserve_eq, length, keyRoom_eq, Nat.mul_zero,
    Nat.add_zero]
  cases accepted : afford dictionary.configuration dictionary.usedBytes
    (unigramSize dictionary.version unigram) with
  | error error => rfl
  | ok =>
      simp only [readUnigram, apply_reading_pure, onContent, supersede, Mutation.apply_modify]
      refine ⟨_, rfl, ⟨?_, represents.undamaged⟩, rfl, rfl, rfl, ?_⟩
      · exact represents.content.replaced place spelled storable (afford_eq_ok.mp accepted).2
      · simp only [Dictionary.usedBytes, Content.usedBytes, Buffer.size_overwrite,
          Buffer.size_append, length]
        omega

/-- Filing a new word whose room was reserved is not refused, and with the records that are appended
it is what is known then. -/
theorem apply_fileWord (represents : dictionary.Represents vocabulary) {word : Word}
    {unigram : Unigram} (new : word ∉ vocabulary.spelled) (storableWord : word.Storable)
    (storable : unigram.Storable)
    (room : dictionary.usedBytes +
      (unigramSize dictionary.version unigram + (recordSize word + keyRoom word.length)) ≤
        maxBufferBytes) :
    ∃ words,
      (fileWord dictionary.content.terminals.size Forest.root word).apply dictionary.content.words =
        (.ok (), words) ∧
      ∀ {after : Dictionary},
        Rewritten dictionary after
          { dictionary.content with
            words := words
            terminals := Buffer.append dictionary.content.terminals
              (Terminal.encode { word := word, unigram := dictionary.content.records.size })
            records := Buffer.append dictionary.content.records (unigram.encode dictionary.version)
            unigramCount := dictionary.content.unigramCount + 1 } →
        Changed dictionary after (vocabulary.store word (unigram.kept dictionary.version))
          (unigramSize dictionary.version unigram + (recordSize word + keyRoom word.length)) := by
  have content := represents.content
  have used := usedBytes_eq dictionary
  have limit : maxBufferBytes = 2147483647 := rfl
  have slots : maxSlots = 2147483647 := rfl
  have largest : Forest.maxValue = 68719476735 := rfl
  have four : LittleEndian.span 4 = 4294967296 := rfl
  rw [keyRoom_eq] at room
  have top : descend dictionary.content.words Forest.root [] = some Forest.root := rfl
  obtain ⟨words, filedWord, lawful, growth, filed⟩ :=
    fileWord_spec (show dictionary.content.terminals.size + 1 ≤ Forest.maxValue by omega) word
      storableWord.1 content.words top (by omega)
  refine ⟨words, filedWord, fun rewritten => rewritten.changed represents ?_ ?_⟩
  · refine content.inserted new storableWord storable lawful ?_ (by omega) ?_
    · intro path key
      rw [filing_append new, filed, filedAlong, content.filed, content.size_terminals]
      simp only [List.nil_append, List.nil_prefix, true_and]
    · simp only [Forest.usedBytes, Slot.byteSize]
      omega
  · have size : (Terminal.mk word dictionary.content.records.size).size = recordSize word :=
      (recordSize_eq _).symm
    simp only [Content.usedBytes, Forest.usedBytes, Slot.byteSize, Buffer.size_append,
      Unigram.length_encode, Terminal.length_encode, size, keyRoom_eq]
    omega

/-- Inserting a word is accepted if there may be another one, and there is room for its records and
its code points. -/
theorem apply_insertUnigram (represents : dictionary.Represents vocabulary) {word : Word}
    {unigram : Unigram} (new : word ∉ vocabulary.spelled) (storableWord : word.Storable)
    (storable : unigram.Storable) :
    Decides
      (if dictionary.configuration.maxUnigrams ≤ vocabulary.words.length then
        .error (.limitReached .unigrams dictionary.configuration.maxUnigrams)
      else afford dictionary.configuration dictionary.usedBytes
        (unigramSize dictionary.version unigram + (recordSize word + keyRoom word.length)))
      (insertUnigram word (unigram.encode dictionary.version)) dictionary
      (vocabulary.store word (unigram.kept dictionary.version))
      (unigramSize dictionary.version unigram + (recordSize word + keyRoom word.length)) := by
  have filing := represents.apply_fileWord new storableWord storable
  have length := Unigram.length_encode dictionary.version unigram
  have size : (Terminal.mk word dictionary.content.records.size).size = recordSize word :=
    (recordSize_eq _).symm
  simp only [Decides, insertUnigram, Mutation.apply_bind, Mutation.apply_get, Mutation.apply_require,
    Mutation.apply_check, reserve_eq, length, Terminal.length_encode, size,
    represents.content.unigramCount, Nat.add_assoc, decide_eq_true_eq]
  by_cases full : dictionary.configuration.maxUnigrams ≤ vocabulary.words.length
  · rw [if_pos full, if_neg (Nat.not_lt.mpr full)]
  · rw [if_neg full, if_pos (Nat.lt_of_not_le full)]
    dsimp only
    cases accepted : afford dictionary.configuration dictionary.usedBytes
      (unigramSize dictionary.version unigram + (recordSize word + keyRoom word.length)) with
    | error error => rfl
    | ok =>
        obtain ⟨words, filed, changed⟩ := filing (afford_eq_ok.mp accepted).2
        simp only [onWords, Mutation.apply_onPart, filed, onContent, Mutation.apply_modify]
        exact ⟨_, rfl, changed ⟨rfl, rfl, rfl, rfl, rfl⟩⟩

/-- Adding a word, or replacing what is known about it, is accepted exactly when the vocabulary
accepts it, and changes nothing otherwise. -/
theorem addUnigram (represents : dictionary.Represents vocabulary) (word : Word)
    (unigram : Unigram) :
    Decides (vocabulary.acceptUnigram dictionary.terms dictionary.usedBytes word unigram)
      (Dictionary.addUnigram word unigram) dictionary
      (vocabulary.store word (unigram.kept dictionary.version))
      (vocabulary.unigramRoom dictionary.version word unigram) := by
  simp only [Decides, Dictionary.addUnigram, Mutation.apply_bind, Mutation.apply_get,
    Mutation.apply_check, checkUpdatable_eq, acceptUnigram]
  cases dictionary.terms.allow with
  | error error => rfl
  | ok =>
      cases checked : checkUnigram word unigram with
      | error error => rfl
      | ok =>
          obtain ⟨storableWord, storable⟩ := checkUnigram_eq_ok.mp checked
          simp only [represents.find, apply_reading_pure, unigramRoom]
          by_cases member : word ∈ vocabulary.spelled
          · obtain ⟨token, place⟩ := Option.isSome_iff_exists.mp (isSome_placeIn.mpr member)
            simp only [place, member, not_true, false_and, if_true, if_false, Nat.add_zero]
            exact represents.apply_replaceUnigram place storable
          · simp only [placeIn_eq_none.mpr member, member, not_false_eq_true, true_and, if_false]
            exact represents.apply_insertUnigram member storableWord storable

end Represents

end Dictionary

end Lexicon

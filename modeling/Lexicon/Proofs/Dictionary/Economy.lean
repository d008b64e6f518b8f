/-
Module: Lexicon.Proofs.Dictionary.Economy
Layer: Proofs
Purpose: What a dictionary takes up at least, and that it is what a compacted one takes up: so
  compaction makes nothing larger, but for the runs that are parked in the forest of bigrams.
Imports: Lexicon.Proofs.Dictionary.Canonical, Lexicon.Proofs.Dictionary.Reservation,
  Lexicon.Proofs.Dictionary.Slimness, Lexicon.Proofs.Forest.Economy
Trusted boundary: none
Main exports: Dictionary.fileWords, Vocabulary.recordBytes, Content.Ample, Dictionary.Packed,
  Dictionary.lasting_ample, Dictionary.packed_of_fill, Content.Economical,
  Dictionary.Genuine.flushCompacted_economical
-/
import Lexicon.Proofs.Dictionary.Canonical
import Lexicon.Proofs.Dictionary.Reservation
import Lexicon.Proofs.Dictionary.Slimness
import Lexicon.Proofs.Forest.Economy

namespace Lexicon

open Vocabulary

open Forest (Slimmer Trim Busy Coherent)

/-!
Words are never removed, and are added to a compacted dictionary in the order in which they were added
before; so its forest of words is the slimmest that they can have.  Bigrams are added in another order
and some of them are removed, so that other runs are parked in the forest of bigrams.  What is in use
there is least when they were only ever added.
-/

/-! ### Records -/

namespace Vocabulary

variable {version : FormatVersion} {vocabulary : Vocabulary}

/-- The bytes of the records of all unigrams and bigrams. -/
def recordBytes (version : FormatVersion) (vocabulary : Vocabulary) : Nat :=
  (vocabulary.words.map fun entry => unigramSize version entry.2).sum +
    vocabulary.bigrams.size * BigramRecord.size version

theorem recordBytes_concat (words : List (Word × Unigram)) (entry : Word × Unigram)
    (bigrams : Std.ExtHashMap (Word × Word) BigramRecord) :
    recordBytes version ⟨words ++ [entry], bigrams⟩ =
      recordBytes version ⟨words, bigrams⟩ + unigramSize version entry.2 := by
  simp only [recordBytes, List.map_append, List.map_singleton, List.sum_append, List.sum_singleton]
  omega

theorem recordBytes_insert {words : Word × Word} (new : words ∉ vocabulary.bigrams)
    (record : BigramRecord) :
    recordBytes version ⟨vocabulary.words, vocabulary.bigrams.insert words record⟩ =
      recordBytes version vocabulary + BigramRecord.size version := by
  rw [recordBytes, recordBytes, Std.ExtHashMap.size_insert, if_neg new, Nat.add_one_mul,
    Nat.add_assoc]

/-- The bytes of the record of what is known about a word, if it is there. -/
def unigramBytes (version : FormatVersion) (vocabulary : Vocabulary) (word : Word) : Nat :=
  ((vocabulary.unigram? word).map (unigramSize version)).getD 0

/-- The bytes of the record of what is known about one word following another, if there is one. -/
def bigramBytes (version : FormatVersion) (vocabulary : Vocabulary) (words : Word × Word) : Nat :=
  if words ∈ vocabulary.bigrams then BigramRecord.size version else 0

/-- What is stored about a word takes its bytes, and those of what was known before are not taken any
more. -/
theorem recordBytes_store (distinct : vocabulary.spelled.Nodup) (word : Word) (unigram : Unigram) :
    recordBytes version (vocabulary.store word unigram) + unigramBytes version vocabulary word =
      recordBytes version vocabulary + unigramSize version unigram := by
  by_cases member : word ∈ vocabulary.spelled
  · obtain ⟨⟨_, old⟩, among, rfl⟩ := List.mem_map.mp member
    obtain ⟨before, after, split⟩ := List.append_of_mem among
    rw [recordBytes, recordBytes, unigramBytes, (unigram?_eq_some distinct).mpr among,
      store_split distinct split, split]
    simp only [List.map_append, List.map_cons, List.sum_append, List.sum_cons, store,
      Option.map_some, Option.getD_some]
    omega
  · rw [store, if_neg member, recordBytes_concat, unigramBytes, unigram?_eq_none.mpr member]
    rfl

/-- So it is when two words are related. -/
theorem recordBytes_relate (first second : Word) (record : BigramRecord) :
    recordBytes version (vocabulary.relate first second record) +
        bigramBytes version vocabulary (first, second) =
      recordBytes version vocabulary + BigramRecord.size version := by
  rw [bigramBytes]
  split
  next known =>
    rw [recordBytes, recordBytes, relate, Std.ExtHashMap.size_insert, if_pos known]
  next new =>
    rw [relate, recordBytes_insert new, Nat.add_zero]

/-- What is not known any more takes no bytes. -/
theorem recordBytes_erase (words : Word × Word) :
    recordBytes version { vocabulary with bigrams := vocabulary.bigrams.erase words } +
      bigramBytes version vocabulary words = recordBytes version vocabulary := by
  rw [recordBytes, recordBytes, bigramBytes, Std.ExtHashMap.size_erase]
  split
  next known =>
    have some : vocabulary.bigrams.size ≠ 0 := by
      intro zero
      rw [Std.ExtHashMap.eq_empty_iff_size_eq_zero.mpr zero] at known
      exact Std.ExtHashMap.not_mem_empty known
    rw [Nat.add_assoc, ← Nat.add_one_mul, Nat.sub_add_cancel (Nat.pos_of_ne_zero some)]
  next => rfl

/-- Storing what is known about a word takes another record at most. -/
theorem recordBytes_store_le (distinct : vocabulary.spelled.Nodup) (word : Word)
    (unigram : Unigram) :
    recordBytes version (vocabulary.store word unigram) ≤
      recordBytes version vocabulary + unigramSize version unigram :=
  Nat.le.intro (recordBytes_store distinct word unigram)

/-- Relating two words takes another record at most. -/
theorem recordBytes_relate_le (first second : Word) (record : BigramRecord) :
    recordBytes version (vocabulary.relate first second record) ≤
      recordBytes version vocabulary + BigramRecord.size version :=
  Nat.le.intro (recordBytes_relate first second record)

theorem recordBytes_erase_le (words : Word × Word) :
    recordBytes version { vocabulary with bigrams := vocabulary.bigrams.erase words } ≤
      recordBytes version vocabulary :=
  Nat.le.intro (recordBytes_erase words)

theorem unigramSize_kept (unigram : Unigram) :
    unigramSize version (unigram.kept version) = unigramSize version unigram := by
  rw [← Unigram.length_encode, ← Unigram.length_encode, Unigram.encode_kept]

end Vocabulary

namespace Dictionary

/-! ### Filing words -/

/-- Files some words, each with its token; the first token is given. -/
def fileWords : (token : Nat) → List Word → Mutation Forest Unit
  | _, [] => pure ()
  | token, word :: words => do
      fileWord token Forest.root word
      fileWords (token + recordSize word) words

/-- A last word is filed behind the others. -/
theorem fileWords_concat (word : Word) : ∀ (words : List Word) (token : Nat),
    fileWords token (words ++ [word]) =
      fileWords token words >>= fun _ => fileWord (token + total words) Forest.root word
  | [], token => by
      simp [fileWords, total]
  | first :: words, token => by
      rw [List.cons_append, fileWords, fileWords_concat word words, fileWords, bind_assoc, total_cons,
        Nat.add_assoc]

theorem apply_fileWords_concat {words : List Word} {word : Word} {forest last : Forest} :
    (fileWords 0 (words ++ [word])).apply forest = (.ok (), last) ↔
      ∃ between, (fileWords 0 words).apply forest = (.ok (), between) ∧
        (fileWord (total words) Forest.root word).apply between = (.ok (), last) := by
  rw [fileWords_concat, Nat.zero_add, Mutation.apply_bind]
  rcases (fileWords 0 words).apply forest with ⟨_ | _, between⟩
  · simp
  · simp

end Dictionary

open Dictionary

namespace Dictionary

/-! ### What is stored -/

section Stored

variable {dictionary after : Dictionary} {vocabulary : Vocabulary} {content : Content}
  {word : Word} {unigram : Unigram} {bigram : Bigram}

theorem Represents.unigramStored (represents : dictionary.Represents vocabulary)
    (done : (Dictionary.addUnigram word unigram).apply dictionary = (.ok (), after)) :
    UnigramStored dictionary word unigram after.content := by
  have sustains : Sustains (Coherent False) dictionary.content :=
    ⟨represents.content.words, represents.content.followers⟩
  exact (((meets_addUnigram sustains word unigram).outcome (.refl dictionary) done).1 () rfl).2.2

theorem Represents.bigramStored (represents : dictionary.Represents vocabulary)
    (done : (Dictionary.addBigram word bigram).apply dictionary = (.ok (), after)) :
    BigramStored dictionary word bigram after.content := by
  have sustains : Sustains (Coherent False) dictionary.content :=
    ⟨represents.content.words, represents.content.followers⟩
  exact (((meets_addBigram sustains word bigram).outcome (.refl dictionary) done).1 () rfl).2

/-- Adding a unigram adds its record. -/
theorem UnigramStored.size_records (stored : UnigramStored dictionary word unigram content) :
    content.records.size =
      dictionary.content.records.size + unigramSize dictionary.version unigram := by
  cases stored with
  | replaced | inserted => exact (Buffer.size_append _ _).trans (by rw [Unigram.length_encode])

/-- Adding a unigram files nothing among the bigrams. -/
theorem UnigramStored.followers (stored : UnigramStored dictionary word unigram content) :
    content.followers = dictionary.content.followers := by
  cases stored with
  | replaced | inserted => rfl

/-- Adding a unigram files the word if it is new. -/
theorem UnigramStored.words (stored : UnigramStored dictionary word unigram content)
    (represents : dictionary.Represents vocabulary) :
    if word ∈ vocabulary.spelled then content.words = dictionary.content.words
    else (fileWord (total vocabulary.spelled) Forest.root word).apply dictionary.content.words =
      (.ok (), content.words) := by
  cases stored with
  | replaced found =>
      rw [represents.find] at found
      have place : placeIn vocabulary.spelled word = some _ := found
      rw [if_pos (isSome_placeIn.mp (by rw [place]; rfl))]
  | inserted new filed =>
      rw [represents.find] at new
      rw [if_neg (placeIn_eq_none.mp new), ← represents.content.size_terminals]
      exact filed

/-- Adding a bigram adds its record. -/
theorem BigramStored.size_records (stored : BigramStored dictionary word bigram content) :
    content.records.size =
      dictionary.content.records.size + BigramRecord.size dictionary.version := by
  cases stored with
  | filed => exact (Buffer.size_append _ _).trans (by rw [Bigram.length_encode])

/-- Adding a bigram files no word. -/
theorem BigramStored.words (stored : BigramStored dictionary word bigram content) :
    content.words = dictionary.content.words := by
  cases stored with
  | filed => rfl

/-- Adding a bigram files it. -/
theorem BigramStored.followers (stored : BigramStored dictionary word bigram content) :
    ∃ source target, (fileBigram source target dictionary.content.records.size).apply
      dictionary.content.followers = (.ok (), content.followers) := by
  cases stored with
  | filed _ _ filed => exact ⟨_, _, filed⟩

/-- Removing a bigram changes neither the words nor the records. -/
theorem preserves_removeBigram (words : Forest) (records : ByteArray) (first second : Word) :
    Preserves (fun dictionary : Dictionary =>
      dictionary.content.words = words ∧ dictionary.content.records = records)
        (removeBigram first second) := by
  have reads : ∀ {α : Type} (reading : Reading α), Preserves (fun dictionary : Dictionary =>
      dictionary.content.words = words ∧ dictionary.content.records = records)
        (liftM reading : Mutation Dictionary α) := fun _ _ here => here
  refine .bind .get fun dictionary => .bind (.check _) fun _ => .bind (.check _) fun _ =>
    .bind (.check _) fun _ => .bind (preserves_require reads _) fun source =>
      .bind (preserves_require reads _) fun target => .bind .get fun dictionary => ?_
  dsimp only
  split
  next => exact .pure ()
  next table _ =>
    refine .bind (.onPart fun _ here => here) fun removed => .ite ?_ (.pure ())
    exact .bind (.modify fun _ here => here) fun _ => .modify fun _ here => here

end Stored

end Dictionary

/-! ### Contents that take up at least what is needed -/

/-- A content that represents a vocabulary takes up at least the bytes of its records, and its forest of
words has at least the slots of one in which nothing but its words was filed. -/
structure Content.Ample (content : Content) (version : FormatVersion) (vocabulary : Vocabulary) :
    Prop where
  represents : content.Represents version vocabulary
  records : recordBytes version vocabulary ≤ content.records.size
  words : ∀ {lean : Forest},
    (fileWords 0 vocabulary.spelled).apply Forest.new = (.ok (), lean) → Slimmer lean content.words

namespace Content.Ample

variable {dictionary : Dictionary} {vocabulary : Vocabulary}

theorem represents_dictionary (ample : dictionary.content.Ample dictionary.version vocabulary)
    (undamaged : dictionary.damaged = false) : dictionary.Represents vocabulary :=
  ⟨ample.represents, undamaged⟩

/-- What a change that was decided leaves behind takes up enough if it does so wherever the change was
accepted. -/
theorem decided (ample : dictionary.content.Ample dictionary.version vocabulary)
    {accepted : Except Error Unit} {change : Mutation Dictionary Unit} {next : Vocabulary} {room : Nat}
    (decided : Decides accepted change dictionary next room)
    (enough : ∀ {after : Dictionary}, change.apply dictionary = (.ok (), after) →
      recordBytes dictionary.version next ≤ after.content.records.size ∧
        ∀ {lean : Forest}, (fileWords 0 next.spelled).apply Forest.new = (.ok (), lean) →
          Slimmer lean after.content.words) :
    (change.apply dictionary).2.header = dictionary.header ∧
      ∃ known, (change.apply dictionary).2.content.Ample dictionary.version known := by
  refine decided.kept (fun content known => content.Ample dictionary.version known) ample
    fun done changed => ?_
  obtain ⟨records, words⟩ := enough done
  exact ⟨changed.content, records, words⟩

theorem addUnigram (ample : dictionary.content.Ample dictionary.version vocabulary)
    (undamaged : dictionary.damaged = false) (word : Word) (unigram : Unigram) :
    ((Dictionary.addUnigram word unigram).apply dictionary).2.header = dictionary.header ∧
      ∃ next, ((Dictionary.addUnigram word unigram).apply dictionary).2.content.Ample
        dictionary.version next := by
  have represents := ample.represents_dictionary undamaged
  refine ample.decided (represents.addUnigram word unigram) fun {after} done => ?_
  have stored := represents.unigramStored done
  constructor
  · rw [stored.size_records, ← unigramSize_kept]
    exact Nat.le_trans (recordBytes_store_le ample.represents.distinct _ _)
      (Nat.add_le_add_right ample.records _)
  · intro lean filed
    have words := stored.words represents
    by_cases member : word ∈ vocabulary.spelled
    · rw [if_pos member] at words
      rw [spelled_store_of_mem member] at filed
      rw [words]
      exact ample.words filed
    · rw [if_neg member] at words
      rw [spelled_store, if_neg member, apply_fileWords_concat] at filed
      obtain ⟨between, before, filed⟩ := filed
      exact (files_slimmer.word (ample.words before) _ _ _ _ _ _ filed words).2

theorem addBigram (ample : dictionary.content.Ample dictionary.version vocabulary)
    (undamaged : dictionary.damaged = false) (first : Word) (bigram : Bigram) :
    ((Dictionary.addBigram first bigram).apply dictionary).2.header = dictionary.header ∧
      ∃ next, ((Dictionary.addBigram first bigram).apply dictionary).2.content.Ample
        dictionary.version next := by
  have represents := ample.represents_dictionary undamaged
  refine ample.decided (represents.addBigram first bigram) fun {after} done => ?_
  have stored := represents.bigramStored done
  constructor
  · rw [stored.size_records]
    exact Nat.le_trans (recordBytes_relate_le _ _ _) (Nat.add_le_add_right ample.records _)
  · rw [stored.words]
    exact ample.words

theorem removeBigram (ample : dictionary.content.Ample dictionary.version vocabulary)
    (undamaged : dictionary.damaged = false) (first second : Word) :
    ((Dictionary.removeBigram first second).apply dictionary).2.header = dictionary.header ∧
      ∃ next, ((Dictionary.removeBigram first second).apply dictionary).2.content.Ample
        dictionary.version next := by
  have represents := ample.represents_dictionary undamaged
  refine ample.decided (represents.removeBigram first second) fun {after} done => ?_
  have kept := preserves_removeBigram _ _ first second dictionary ⟨rfl, rfl⟩
  change (Mutation.apply _ dictionary).2.content.words = _ ∧
    (Mutation.apply _ dictionary).2.content.records = _ at kept
  rw [done] at kept
  rw [kept.1, kept.2]
  exact ⟨Nat.le_trans (recordBytes_erase_le _) ample.records, ample.words⟩

/-- So does the copy that is read from an image. -/
theorem reloaded {content : Content} {version : FormatVersion}
    (ample : content.Ample version vocabulary) : content.reloaded.Ample version vocabulary :=
  ⟨ample.represents.copy ⟨rfl, rfl, rfl, rfl, rfl, rfl⟩, ample.records,
    fun filed => (ample.words filed).reloaded⟩

end Content.Ample

namespace Dictionary

/-- Contents take up at least what is needed, whatever is done. -/
theorem lasting_ample :
    Lasting fun header content => ∃ vocabulary, content.Ample header.version vocabulary where
  empty header := by
    refine ⟨{}, (represents_empty header default).content, ?_, fun filed => ?_⟩
    · simp [recordBytes]
    · cases filed
      exact .new
  addUnigram header word unigram :=
    (Heedless.addUnigram word unigram).preserves
      (fun undamaged ⟨_, ample⟩ => ample.addUnigram undamaged word unigram) header
  addBigram header first bigram :=
    (Heedless.addBigram first bigram).preserves
      (fun undamaged ⟨_, ample⟩ => ample.addBigram undamaged first bigram) header
  removeBigram header first second :=
    (Heedless.removeBigram first second).preserves
      (fun undamaged ⟨_, ample⟩ => ample.removeBigram undamaged first second) header

/-- Whatever came about, the content takes up at least what is needed. -/
theorem Genuine.ample {dictionary : Dictionary} (genuine : Genuine dictionary) :
    ∃ vocabulary, dictionary.content.Ample dictionary.version vocabulary :=
  lasting_ample.genuine (fun ⟨vocabulary, ample⟩ => ⟨vocabulary, ample.reloaded⟩) genuine

/-! ### Dictionaries that take up no more than is needed -/

/-- A dictionary that was just filled with a vocabulary takes up nothing but the bytes of its records,
its words were filed into an empty forest, and in its forest of bigrams nothing was ever erased. -/
structure Packed (fresh : Dictionary) (vocabulary : Vocabulary) : Prop where
  represents : fresh.Represents vocabulary
  records : fresh.content.records.size = recordBytes fresh.version vocabulary
  words : (fileWords 0 vocabulary.spelled).apply Forest.new = (.ok (), fresh.content.words)
  trim : ∃ tables tree, Trim fresh.content.followers tables tree
  busy : Busy fresh.content.followers

namespace Packed

variable {fresh after : Dictionary} {vocabulary : Vocabulary} {room : Nat}

theorem empty (header : Header) (configuration : Configuration) :
    (Dictionary.empty header configuration).Packed {} := by
  refine ⟨represents_empty header configuration, ?_, rfl, Forest.exists_trim_new, Forest.busy_new⟩
  simp [recordBytes, Dictionary.empty, ofContent]

/-- Another word takes its record and is filed behind the others. -/
theorem addUnigram (packed : fresh.Packed vocabulary) {word : Word} {unigram : Unigram}
    (new : word ∉ vocabulary.spelled)
    (done : (addUnigram word unigram).apply fresh = (.ok (), after))
    (changed : fresh.Changed after ⟨vocabulary.words ++ [(word, unigram)], vocabulary.bigrams⟩ room) :
    after.Packed ⟨vocabulary.words ++ [(word, unigram)], vocabulary.bigrams⟩ := by
  have stored := packed.represents.unigramStored done
  have words := stored.words packed.represents
  rw [if_neg new] at words
  refine ⟨changed.represents, ?_, ?_, ?_, ?_⟩
  · rw [stored.size_records, packed.records, recordBytes_concat, Dictionary.version,
      Dictionary.version, changed.header]
  · rw [spelled, List.map_append, List.map_singleton]
    exact apply_fileWords_concat.mpr ⟨_, packed.words, words⟩
  · rw [stored.followers]
    exact packed.trim
  · rw [stored.followers]
    exact packed.busy

/-- Another bigram takes its record and is filed below its first word. -/
theorem addBigram (packed : fresh.Packed vocabulary) {word : Word} {bigram : Bigram}
    {record : BigramRecord} (new : (word, bigram.target) ∉ vocabulary.bigrams)
    (done : (addBigram word bigram).apply fresh = (.ok (), after))
    (changed : fresh.Changed after
      ⟨vocabulary.words, vocabulary.bigrams.insert (word, bigram.target) record⟩ room) :
    after.Packed ⟨vocabulary.words, vocabulary.bigrams.insert (word, bigram.target) record⟩ := by
  have stored := packed.represents.bigramStored done
  obtain ⟨source, target, filed⟩ := stored.followers
  obtain ⟨tables, tree, trim⟩ := packed.trim
  have content := packed.represents.content
  have total := usedBytes_eq fresh
  have bounded : fresh.usedBytes ≤ maxBufferBytes := content.bounded
  have limit : maxBufferBytes = 2147483647 := rfl
  have slots : maxSlots = 2147483647 := rfl
  have largest : Forest.maxValue = 68719476735 := rfl
  refine ⟨changed.represents, ?_, ?_, ?_, ?_⟩
  · rw [stored.size_records, packed.records, recordBytes_insert new, Dictionary.version,
      Dictionary.version, changed.header]
  · rw [stored.words]
    exact packed.words
  · exact trim.fileBigram filed
  · exact packed.busy.fileBigram content.followers (by omega) (by omega) filed

end Packed

/-- A packed dictionary on some terms. -/
def PackedOn (terms : Terms) (vocabulary : Vocabulary) (fresh : Dictionary) : Prop :=
  fresh.Packed vocabulary ∧ fresh.terms = terms

section Filling

variable {content : Content} {version : FormatVersion} {vocabulary : Vocabulary}

/-- The words of a vocabulary are all new when their turn comes. -/
theorem ensures_packed_words (known : content.Represents version vocabulary)
    (limits : Configuration) :
    Ensures (PackedOn ⟨version, limits, true⟩ {})
      (vocabulary.words.forM fun entry => addUnigram entry.1 entry.2)
      fun _ => PackedOn ⟨version, limits, true⟩ ⟨vocabulary.words, ∅⟩ := by
  refine Ensures.forM vocabulary.words
    (fun done => PackedOn ⟨version, limits, true⟩ ⟨done, ∅⟩) ?_
  rintro done rest ⟨word, unigram⟩ split fresh _ after ⟨packed, terms⟩ added
  obtain ⟨_, decided, _⟩ := decides_unigramAddition known split packed.represents terms
  have changed := (decided.made added).2
  have new := notMem_spelled_of_split known.distinct split ∅
  exact ⟨packed.addUnigram new added changed, changed.terms.trans terms⟩

/-- So are its bigrams. -/
theorem ensures_packed_pairs (known : content.Represents version vocabulary)
    (limits : Configuration) :
    Ensures (PackedOn ⟨version, limits, true⟩ ⟨vocabulary.words, ∅⟩)
      (vocabulary.pairs.forM fun pair => addBigram pair.1 pair.2)
      fun _ => PackedOn ⟨version, limits, true⟩
        ⟨vocabulary.words, relations version vocabulary.pairs⟩ := by
  refine Ensures.forM vocabulary.pairs
    (fun done => PackedOn ⟨version, limits, true⟩ ⟨vocabulary.words, relations version done⟩) ?_
  rintro done rest ⟨word, bigram⟩ split fresh _ after ⟨packed, terms⟩ added
  obtain ⟨_, decided, _⟩ := decides_bigramAddition known split packed.represents terms
  have changed := (decided.made added).2
  have new := notMem_relations_of_split (nodup_pairs known.distinct) split version
  rw [relations_concat] at changed ⊢
  exact ⟨packed.addBigram new added changed, changed.terms.trans terms⟩

/-- A dictionary into which a vocabulary was filled takes up no more than is needed. -/
theorem packed_of_fill {header : Header} (known : content.Represents header.version vocabulary)
    {limits : Configuration} {fresh : Dictionary}
    (filled : (fill vocabulary).apply (empty header limits) = (.ok (), fresh)) :
    fresh.Packed vocabulary ∧ fresh.version = header.version := by
  have whole := (ensures_packed_words known limits).bind fun _ => ensures_packed_pairs known limits
  obtain ⟨packed, terms⟩ := whole _ _ _ ⟨.empty header limits, rfl⟩ filled
  rw [known.relations_pairs] at packed
  exact ⟨packed, congrArg Terms.version terms⟩

end Filling

end Dictionary

/-! ### Compaction -/

/-- A content that came about by compaction takes up no more than the one before: not in its buffers, not
in its forest of words, and in its forest of bigrams not in slots that are in use. -/
structure Content.Economical (before after : Content) : Prop where
  terminals : after.terminals.size = before.terminals.size
  records : after.records.size ≤ before.records.size
  words : after.words.slotCount ≤ before.words.slotCount
  followers : after.followers.slotCount + before.followers.freeSlots ≤
    before.followers.slotCount + after.followers.freeSlots

/-- So its bytes are no more, but for those of the free slots of its forest of bigrams. -/
theorem Content.Economical.usedBytes_le {before after : Content}
    (economical : before.Economical after) :
    after.usedBytes + Slot.byteSize * before.followers.freeSlots ≤
      before.usedBytes + Slot.byteSize * after.followers.freeSlots := by
  obtain ⟨terminals, records, words, followers⟩ := economical
  simp only [Content.usedBytes, Forest.usedBytes, Slot.byteSize]
  omega

/-- What is filed in a packed dictionary is filed in every content that represents the same. -/
theorem Content.Represents.among_of_packed {content : Content} {version : FormatVersion}
    {vocabulary : Vocabulary} (represents : content.Represents version vocabulary)
    {fresh : Dictionary} (packed : fresh.Represents vocabulary) :
    Forest.Among fresh.content.followers content.followers := by
  intro source target has
  obtain ⟨⟨record, nested⟩, has⟩ := Option.isSome_iff_exists.mp has
  obtain ⟨_, first, second, low, high, bigram, one, two, rfl, rfl, related, _⟩ :=
    packed.content.relation has
  obtain ⟨_, _, oneOther, twoOther, found⟩ := represents.related related
  rw [one] at oneOther
  rw [two] at twoOther
  cases oneOther
  cases twoOther
  exact found

theorem Content.Ample.economical {content : Content} {fresh : Dictionary} {vocabulary : Vocabulary}
    (ample : content.Ample fresh.version vocabulary) (packed : fresh.Packed vocabulary) :
    content.Economical fresh.content := by
  obtain ⟨tables, tree, trim⟩ := packed.trim
  refine ⟨?_, ?_, (ample.words packed.words).slotCount_le, ?_⟩
  · rw [packed.represents.content.size_terminals, ample.represents.size_terminals]
  · rw [packed.records]
    exact ample.records
  · exact trim.slotCount_le packed.busy ample.represents.followers
      (ample.represents.among_of_packed packed.represents)

namespace Dictionary

/-- Compaction makes nothing larger that is in use.  The buffers and the forest of words take no more
room than before, and the forest of bigrams none but for the slots of the runs that are parked in it:
which ones are depends on the order in which bigrams are added, and compaction adds them in another
one. -/
theorem Genuine.flushCompacted_economical {dictionary after : Dictionary}
    (genuine : Genuine dictionary) {directory written : Directory} {name : String}
    (done : dictionary.flushCompacted directory name = (.ok (), after, written)) :
    dictionary.content.Economical after.content ∧
      after.usedBytes + Slot.byteSize * dictionary.content.followers.freeSlots ≤
        dictionary.usedBytes + Slot.byteSize * after.content.followers.freeSlots := by
  obtain ⟨_, compacted, _⟩ := flushCompacted_eq_ok.mp done
  obtain ⟨vocabulary, ample⟩ := genuine.ample
  obtain ⟨_, represents⟩ := genuine.represents_of_compact compacted
  have known := ample.represents_dictionary represents.undamaged
  have filled := known.compact_eq
  rw [compacted] at filled
  split at filled
  next fresh made =>
    cases filled
    obtain ⟨packed, version⟩ := packed_of_fill ample.represents made
    rw [Dictionary.version, ← version] at ample
    have economical := ample.economical packed
    exact ⟨economical, economical.usedBytes_le⟩
  next => cases filled

/-- What has an image after compaction can be flushed to an empty directory. -/
theorem exists_flushCompacted_reached (limits : Configuration) (operations : List Operation)
    (ready : (reached limits operations).updatable = true ∧
      (compact.apply (reached limits operations)).1 = .ok () ∧
      (compact.apply (reached limits operations)).2.updatable = true ∧
      (Image.encode (compact.apply (reached limits operations)).2.header
        (compact.apply (reached limits operations)).2.content).toOption.isSome = true) :
    ∃ written, (reached limits operations).flushCompacted .empty "m" =
      (.ok (), (compact.apply (reached limits operations)).2, written) := by
  obtain ⟨updatable, compacted, kept, encoded⟩ := ready
  exact exists_flushCompacted_empty (show Directory.path "m" = ["m"] by decide +kernel)
    (show Directory.path (Directory.provisional "m") = ["m.tmp"] by decide +kernel) updatable kept
    compacted encoded

/-- After detours there is less to take up. -/
theorem Genuine.flushCompacted_economical_winding :
    ∃ after written, Genuine (reached .standard winding) ∧
      (reached .standard winding).flushCompacted .empty "m" = (.ok (), after, written) ∧
      (reached .standard winding).content.Economical after.content ∧
      after.usedBytes < (reached .standard winding).usedBytes := by
  have genuine := genuine_reached .standard winding
  obtain ⟨written, done⟩ := exists_flushCompacted_reached .standard winding (by decide +kernel)
  exact ⟨_, written, genuine, done, (genuine.flushCompacted_economical done).1, by decide +kernel⟩

/-- Six words, and bigrams of four of them, which are added in another order than the words. -/
def scattering : List Operation :=
  [.request (.addUnigram [97] { probability := 1 }),
    .request (.addUnigram [98] { probability := 1 }),
    .request (.addUnigram [99, 99, 99, 99, 99, 99, 99, 99] { probability := 1 }),
    .request (.addUnigram [100] { probability := 1 }),
    .request (.addUnigram [101] { probability := 1 }),
    .request (.addUnigram [102, 102] { probability := 1 }),
    .request (.addBigram [102, 102] { target := [97], probability := 1 }),
    .request (.addBigram [100] { target := [97], probability := 1 }),
    .request (.addBigram [97] { target := [97], probability := 1 }),
    .request (.addBigram [101] { target := [97], probability := 1 })]

/-- A dictionary that was only ever added to takes thirty-two bytes more when it is compacted: added in
the order of the words, the bigrams leave two slots of their forest behind. -/
theorem Session.flushCompacted_scattering :
    create 4 "en" default .standard = .ok (empty ⟨.plain, "en", default⟩ .standard) ∧
      ∃ driven after written,
        ((start (empty ⟨.plain, "en", default⟩ .standard)).drive scattering).dictionary = driven ∧
          driven.flushCompacted .empty "m" = (.ok (), after, written) ∧
          driven.usedBytes = 924 ∧ driven.content.followers.freeSlots = 0 ∧
          after.usedBytes = 956 ∧ after.content.followers.freeSlots = 2 := by
  have before : (reached .standard scattering).usedBytes = 924 ∧
      (reached .standard scattering).content.followers.freeSlots = 0 := by decide +kernel
  have afterwards : (compact.apply (reached .standard scattering)).2.usedBytes = 956 ∧
      (compact.apply (reached .standard scattering)).2.content.followers.freeSlots = 2 := by
    decide +kernel
  obtain ⟨written, done⟩ := exists_flushCompacted_reached .standard scattering (by decide +kernel)
  exact ⟨rfl, reached .standard scattering, _, written, rfl, done, before.1, before.2, afterwards.1,
    afterwards.2⟩

end Dictionary

end Lexicon

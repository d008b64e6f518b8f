/-
Module: Lexicon.Proofs.Dictionary.Representation
Layer: Proofs
Purpose: When the content of a dictionary represents a vocabulary: what its two forests and its two
  buffers then hold.
Imports: Lexicon.Proofs.Dictionary.Vocabulary, Lexicon.Proofs.Forest.Path, Mathlib.Data.List.Forall2
Trusted boundary: none
Main exports: Vocabulary.filing, Layout, Content.Represents, Dictionary.Represents,
  Dictionary.represents_empty
-/
import Lexicon.Proofs.Dictionary.Vocabulary
import Lexicon.Proofs.Forest.Path
import Mathlib.Data.List.Forall2

namespace Lexicon

open Vocabulary Dictionary

/-! ### Words in a forest -/

namespace Vocabulary

/-- What stands in a forest for the beginning of a word: the token of the word plus one, or zero if it
is none, and whether a longer word begins with it. -/
def filing (words : List Word) (stem : Word) : Option (Nat × Bool) :=
  if ∃ word ∈ words, stem <+: word then
    some (((placeIn words stem).map (· + 1)).getD 0,
      decide (∃ word ∈ words, stem <+: word ∧ stem ≠ word))
  else none

theorem filing_nil (stem : Word) : filing [] stem = none := by
  simp [filing]

/-- A word is found as what is filed for it. -/
theorem filing_of_mem {words : List Word} {word : Word} (member : word ∈ words) :
    (filing words word).map (·.1) = (placeIn words word).map (· + 1) := by
  have stem : ∃ other ∈ words, word <+: other := ⟨word, member, List.prefix_refl word⟩
  obtain ⟨token, place⟩ := Option.isSome_iff_exists.mp (isSome_placeIn.mpr member)
  rw [filing, if_pos stem, place]
  rfl

/-- The value zero is filed for the beginning of a word that is none itself. -/
theorem filing_of_notMem {words : List Word} {word : Word} (new : word ∉ words) :
    (filing words word).map (·.1) = none ∨ (filing words word).map (·.1) = some 0 := by
  rw [filing, placeIn_eq_none.mpr new]
  split
  next => exact Or.inr rfl
  next => exact Or.inl rfl

end Vocabulary

/-! ### Records in the buffers -/

/-- A terminal record belongs to a word: it names a place at which the unigram record of the word
stands. -/
structure Terminal.Names (version : FormatVersion) (records : ByteArray) (terminal : Terminal)
    (entry : Word × Unigram) : Prop where
  word : terminal.word = entry.1
  fits : terminal.unigram < LittleEndian.span 4
  shows : Buffer.Shows records terminal.unigram (entry.2.encode version)

/-- The terminal records of some words, in their order. -/
abbrev Layout (version : FormatVersion) (records : ByteArray) :
    List Terminal → List (Word × Unigram) → Prop :=
  List.Forall₂ (Terminal.Names version records)

namespace Layout

variable {version : FormatVersion} {records : ByteArray} {terminals : List Terminal}
  {words : List (Word × Unigram)}

theorem length_flatMap (layout : Layout version records terminals words) :
    (terminals.flatMap Terminal.encode).length = total (words.map (·.1)) := by
  induction layout with
  | nil => rfl
  | cons names _ ih =>
      rw [List.flatMap_cons, List.length_append, ih, List.map_cons, total_cons,
        Terminal.length_encode, ← recordSize_eq, names.word]

/-- New records are appended, and so the old ones stay where they are. -/
theorem append (layout : Layout version records terminals words) (more : List UInt8) :
    Layout version (Buffer.append records more) terminals words :=
  layout.imp fun _ _ names => ⟨names.word, names.fits, names.shows.append more⟩

/-- The record of a word has the records of the words before it before it, and those of the words
behind it behind it. -/
theorem split (layout : Layout version records terminals words)
    (distinct : (words.map (·.1)).Nodup) {entry : Word × Unigram} (member : entry ∈ words) :
    ∃ before terminal after wordsBefore wordsAfter,
      terminals = before ++ terminal :: after ∧ words = wordsBefore ++ entry :: wordsAfter ∧
      Layout version records before wordsBefore ∧ terminal.Names version records entry ∧
      Layout version records after wordsAfter ∧
      placeIn (words.map (·.1)) entry.1 = some (before.flatMap Terminal.encode).length := by
  induction layout with
  | nil => cases member
  | @cons first other rest others names layout ih =>
      rw [List.map_cons, List.nodup_cons] at distinct
      rcases List.mem_cons.mp member with rfl | later
      · exact ⟨[], first, rest, [], others, rfl, rfl, .nil, names, layout, by simp [placeIn]⟩
      · obtain ⟨before, terminal, after, wordsBefore, wordsAfter, rfl, rfl, ahead, here, behind,
          place⟩ := ih distinct.2 later
        refine ⟨first :: before, terminal, after, other :: wordsBefore, wordsAfter, rfl, rfl,
          .cons names ahead, here, behind, ?_⟩
        have differ : other.1 ≠ entry.1 := by
          intro same
          exact distinct.1 (same ▸ List.mem_map.mpr ⟨entry, later, rfl⟩)
        rw [List.map_cons, placeIn, if_neg differ, place, Option.map_some, List.flatMap_cons,
          List.length_append, Terminal.length_encode, ← recordSize_eq, names.word]

end Layout

/-! ### Contents and vocabularies -/

/-- The content of a dictionary represents a vocabulary.  Words are filed by their code points, and
have their tokens there; at its token a word has a terminal record, which leads to the unigram record;
bigrams are filed by the tokens of their words, with the places of the bigram records. -/
structure Content.Represents (content : Content) (version : FormatVersion)
    (vocabulary : Vocabulary) : Prop where
  distinct : vocabulary.spelled.Nodup
  storable : ∀ {word : Word} {unigram : Unigram}, (word, unigram) ∈ vocabulary.words →
    word.Storable ∧ unigram.Storable ∧ unigram.kept version = unigram
  storableBigram : ∀ {first second : Word} {bigram : BigramRecord},
    vocabulary.bigrams[(first, second)]? = some bigram → bigram.Storable version
  layout : ∃ terminals, Buffer.bytes content.terminals = terminals.flatMap Terminal.encode ∧
    Layout version content.records terminals vocabulary.words
  words : content.words.Lawful
  filed : ∀ path key,
    content.words.at? path key = filing vocabulary.spelled (path ++ [key])
  followers : content.followers.Lawful
  relation : ∀ {source target : Int32} {record : Nat} {nested : Bool},
    content.followers.at? [source] target = some (record, nested) → nested = false ∧
      ∃ first second low high bigram, placeIn vocabulary.spelled first = some low ∧
        placeIn vocabulary.spelled second = some high ∧ source = wordKey low ∧
        target = wordKey high ∧ vocabulary.bigrams[(first, second)]? = some bigram ∧
        Buffer.Shows content.records record (bigram.encode version)
  related : ∀ {first second : Word} {bigram : BigramRecord},
    vocabulary.bigrams[(first, second)]? = some bigram →
      ∃ low high, placeIn vocabulary.spelled first = some low ∧
        placeIn vocabulary.spelled second = some high ∧
        (content.followers.at? [wordKey low] (wordKey high)).isSome = true
  unigramCount : content.unigramCount = vocabulary.words.length
  bigramCount : content.bigramCount = vocabulary.bigrams.size
  recorded : content.bigramCount ≤ content.records.size
  bounded : content.usedBytes ≤ maxBufferBytes

/-- A dictionary without damage whose content represents a vocabulary. -/
structure Dictionary.Represents (dictionary : Dictionary) (vocabulary : Vocabulary) : Prop where
  content : dictionary.content.Represents dictionary.version vocabulary
  undamaged : dictionary.damaged = false

/-- Nothing is filed in a new forest. -/
theorem Forest.at?_new (path : List Int32) (key : Int32) : Forest.new.at? path key = none := by
  cases path with
  | nil =>
      rw [Forest.at?]
      dsimp only [Dictionary.descend]
      rw [Forest.sound_new.2]
      rfl
  | cons first rest =>
      have ends : Dictionary.descend Forest.new Forest.root (first :: rest) = none := by
        rw [Dictionary.descend, Forest.nested?_eq, Forest.sound_new.2]
        rfl
      rw [Forest.at?, ends]

/-- An empty dictionary says nothing. -/
theorem Dictionary.represents_empty (header : Header) (configuration : Configuration) :
    (Dictionary.empty header configuration).Represents {} := by
  have bounded : ({} : Content).usedBytes ≤ maxBufferBytes := by decide
  refine ⟨?_, rfl⟩
  refine ⟨List.nodup_nil, nofun, ?_, ⟨[], rfl, .nil⟩, ⟨_, Forest.sound_new.1⟩, ?_,
    ⟨_, Forest.sound_new.1⟩, ?_, ?_, rfl, rfl, Nat.le_refl 0, bounded⟩
  · intro first second bigram has
    simp at has
  · intro path key
    rw [show (Dictionary.empty header configuration).content.words = Forest.new from rfl,
      Forest.at?_new]
    exact (filing_nil _).symm
  · intro source target record nested has
    rw [show (Dictionary.empty header configuration).content.followers = Forest.new from rfl,
      Forest.at?_new] at has
    cases has
  · intro first second bigram has
    simp at has

namespace Content.Represents

variable {content : Content} {version : FormatVersion} {vocabulary : Vocabulary}

theorem size_terminals (represents : content.Represents version vocabulary) :
    content.terminals.size = total vocabulary.spelled := by
  obtain ⟨terminals, bytes, layout⟩ := represents.layout
  rw [← Buffer.length_bytes, bytes, layout.length_flatMap]
  rfl

theorem sizes_le (represents : content.Represents version vocabulary) :
    content.terminals.size + content.records.size + content.words.slotCount * Slot.byteSize +
      content.followers.slotCount * Slot.byteSize ≤ maxBufferBytes :=
  represents.bounded

/-- Tokens are small enough to be keys. -/
theorem token_lt (represents : content.Represents version vocabulary) {word : Word} {token : Nat}
    (place : placeIn vocabulary.spelled word = some token) : token < maxOffset := by
  have ends := placeIn_le place
  have size := represents.size_terminals
  have bounded := represents.sizes_le
  have limit : maxBufferBytes < maxOffset := by decide
  omega

theorem storable_word (represents : content.Represents version vocabulary) {word : Word}
    (member : word ∈ vocabulary.spelled) : word.Storable := by
  obtain ⟨entry, among, rfl⟩ := List.mem_map.mp member
  exact (represents.storable among).1

/-- At the token of a word stands its terminal record, and that leads to its unigram record. -/
theorem records_of_mem (represents : content.Represents version vocabulary) {word : Word}
    {unigram : Unigram} (member : (word, unigram) ∈ vocabulary.words) :
    ∃ token terminal, placeIn vocabulary.spelled word = some token ∧
      terminal.Names version content.records (word, unigram) ∧
      Terminal.readAt content.terminals token = some terminal := by
  obtain ⟨terminals, bytes, layout⟩ := represents.layout
  obtain ⟨before, terminal, after, _, _, rfl, _, _, names, _, place⟩ :=
    layout.split represents.distinct member
  have storable := (represents.storable member).1
  rw [← show terminal.word = word from names.word] at storable
  refine ⟨_, terminal, place, names, Terminal.readAt_of_shows storable names.fits ?_⟩
  apply Buffer.Shows.between
  rw [bytes, List.flatMap_append, List.flatMap_cons, ← List.append_assoc]

end Content.Represents

/-! ### Keys of tokens -/

namespace Dictionary

theorem wordOffset_wordKey {token : Nat} (small : token ≤ maxOffset) :
    wordOffset (wordKey token) = token := by
  have limit : maxOffset = 4294967295 := rfl
  simp only [wordOffset, wordKey, LittleEndian.signedOfNat, UInt32.toInt32, UInt32.toNat_ofNat']
  omega

theorem wordKey_wordOffset (key : Int32) : wordKey (wordOffset key) = key :=
  LittleEndian.signedOfNat_toNat key

theorem wordKey_inj {first second : Nat} (inFirst : first < maxOffset)
    (inSecond : second < maxOffset) (same : wordKey first = wordKey second) : first = second := by
  rw [← wordOffset_wordKey inFirst.le, same, wordOffset_wordKey inSecond.le]

end Dictionary

end Lexicon

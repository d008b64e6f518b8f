/-
Module: Lexicon.Dictionary.Basic
Layer: Dictionary
Purpose: The parts of a dictionary, and how much room they take.
Imports: Lexicon.Configuration, Lexicon.Forest.Basic, Lexicon.Mutation, Lexicon.Reading,
  Lexicon.Record
Trusted boundary: none
Main exports: Content, Dictionary, Dictionary.create, Dictionary.note, Dictionary.needsCompaction
-/
import Lexicon.Configuration
import Lexicon.Forest.Basic
import Lexicon.Mutation
import Lexicon.Reading
import Lexicon.Record

namespace Lexicon

/-!
A word is filed in a forest: each of its code points is a key, and the table nested below it holds
the code points that follow.  The value zero marks an entry that only leads further; any other value
is the offset of the word's terminal record plus one.  That offset is what identifies the word, in
the forest of bigrams and to those who walk through the words.  Records are only appended.  What is
overwritten or removed stays in the buffers as superseded bytes until the dictionary is compacted.
-/

/-- What a dictionary stores. -/
structure Content where
  /-- The code points of all words. -/
  words : Forest := Forest.new
  /-- The bigrams: below the terminal offset of a word, those of its followers with the offsets of
  the bigram records. -/
  followers : Forest := Forest.new
  /-- The terminal records, in the order in which their words were first added. -/
  terminals : ByteArray := ByteArray.empty
  /-- The unigram and bigram records. -/
  records : ByteArray := ByteArray.empty
  unigramCount : Nat := 0
  bigramCount : Nat := 0

namespace Content

instance : Inhabited Content := ⟨{}⟩

/-- The bytes of all buffers and slots. -/
def usedBytes (content : Content) : Nat :=
  content.terminals.size + content.records.size + content.words.usedBytes +
    content.followers.usedBytes

end Content

/-- An open dictionary. -/
structure Dictionary where
  header : Header
  configuration : Configuration
  /-- Whether changes are accepted. -/
  updatable : Bool
  content : Content
  /-- The bytes of records that were overwritten or removed since the dictionary was created, opened
  or compacted. -/
  superseded : Nat
  /-- Whether a damaged record was met.  Once set it stays set. -/
  damaged : Bool
deriving Inhabited

namespace Dictionary

/-- A dictionary with the given content, of which nothing is known to be superseded or damaged. -/
def ofContent (header : Header) (content : Content) (updatable : Bool)
    (configuration : Configuration) : Dictionary :=
  { header := header
    configuration := configuration
    updatable := updatable
    content := content
    superseded := 0
    damaged := false }

/-- An empty dictionary that accepts changes. -/
def empty (header : Header) (configuration : Configuration) : Dictionary :=
  ofContent header {} true configuration

/-- Creates an empty dictionary at the format version with the given number. -/
def create (versionNumber : Nat) (locale : String) (attributes : Attributes)
    (configuration : Configuration) : Except Error Dictionary := do
  let version ← FormatVersion.ofNumber versionNumber
  pure (empty { version := version, locale := locale, attributes := attributes } configuration)

/-- The format version of the records. -/
def version (dictionary : Dictionary) : FormatVersion := dictionary.header.version

/-- The bytes that count against the capacity. -/
def usedBytes (dictionary : Dictionary) : Nat := dictionary.content.usedBytes

/-- Remembers the damage that a reading met. -/
def note {α : Type} (dictionary : Dictionary) (reading : Reading α) : α × Dictionary :=
  (reading.value, { dictionary with damaged := dictionary.damaged || reading.damaged })

/-- A reading made in the course of a change is remembered in the dictionary being changed. -/
instance : MonadLift Reading (StateM Dictionary) where
  monadLift reading := fun dictionary => dictionary.note reading

/-- Whether the dictionary should be compacted before it grows further.  Callers for whom compaction
is a nuisance are told so only when it is necessary, others also when it is worth while. -/
def needsCompaction (dictionary : Dictionary) (onlyIfNecessary : Bool) : Bool :=
  let limits := dictionary.configuration
  dictionary.updatable &&
    (dictionary.usedBytes ≥ limits.compactionThreshold ||
      dictionary.content.unigramCount ≥ limits.maxUnigrams ||
      dictionary.content.bigramCount ≥ limits.maxBigrams ||
      (!onlyIfNecessary && dictionary.superseded ≥ limits.eagerSuperseded))

/-- Answers questions about a dictionary by name; a question that is not known has an empty
answer. -/
def query (dictionary : Dictionary) (question : String) : String :=
  if question = "UNIGRAM_COUNT" then toString dictionary.content.unigramCount
  else if question = "BIGRAM_COUNT" then toString dictionary.content.bigramCount
  else if question = "MAX_UNIGRAM_COUNT" then toString dictionary.configuration.maxUnigrams
  else if question = "MAX_BIGRAM_COUNT" then toString dictionary.configuration.maxBigrams
  else ""

/-- Creating a dictionary can fail for its format version alone. -/
theorem create_eq_ok_iff {versionNumber : Nat} {locale : String} {attributes : Attributes}
    {configuration : Configuration} {dictionary : Dictionary} :
    create versionNumber locale attributes configuration = .ok dictionary ↔
      ∃ version, FormatVersion.ofNumber versionNumber = .ok version ∧
        dictionary = empty ⟨version, locale, attributes⟩ configuration := by
  rw [create]
  cases FormatVersion.ofNumber versionNumber with
  | error cause =>
      constructor
      · rintro ⟨⟩
      · rintro ⟨_, ⟨⟩, _⟩
  | ok version =>
      constructor
      · rintro ⟨⟩
        exact ⟨version, rfl, rfl⟩
      · rintro ⟨_, ⟨⟩, rfl⟩
        rfl

/-- Damage is never forgotten. -/
theorem damaged_note {α : Type} {dictionary : Dictionary} (damaged : dictionary.damaged = true)
    (reading : Reading α) : (dictionary.note reading).2.damaged = true := by
  simp [note, damaged]

end Dictionary

end Lexicon

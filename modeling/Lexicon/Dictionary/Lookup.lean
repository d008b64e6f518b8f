/-
Module: Lexicon.Dictionary.Lookup
Layer: Dictionary
Purpose: Finding words and reading their records.
Imports: Lexicon.Dictionary.Basic
Trusted boundary: none
Main exports: Dictionary.find, Dictionary.probability, Dictionary.bigramProbability,
  Dictionary.property
-/
import Lexicon.Dictionary.Basic

namespace Lexicon

namespace Dictionary

/-- The largest number that offsets of terminal records can have. -/
def maxOffset : Nat := 0xffffffff

/-- The key of a word in the forest of bigrams. -/
def wordKey (terminal : Nat) : Int32 := LittleEndian.signedOfNat terminal

/-- The offset that such a key stands for. -/
def wordOffset (key : Int32) : Nat := key.toUInt32.toNat

/-- Follows code points down the forest of words to the table below the last of them. -/
def descend (words : Forest) (table : Table) : Word → Option Table
  | [] => some table
  | codePoint :: rest =>
      match words.nested? table codePoint with
      | none => none
      | some next => descend words next rest

/-- The value filed for a word: that of its last code point. -/
def filed? (words : Forest) (word : Word) : Option Nat :=
  match word.getLast?, descend words Forest.root word.dropLast with
  | some last, some table => words.get? table last
  | _, _ => none

/-- The offset of a word's terminal record, if the word is stored. -/
def find (dictionary : Dictionary) (word : Word) : Reading (Option Nat) :=
  match filed? dictionary.content.words word with
  | none => pure none
  | some value =>
      if value = 0 then pure none
      else if value - 1 > maxOffset then Reading.damage
      else pure (some (value - 1))

/-- The terminal record at an offset. -/
def readTerminal (dictionary : Dictionary) (offset : Nat) : Reading (Option Terminal) :=
  Reading.ofRecord (Terminal.readAt dictionary.content.terminals offset)

/-- The unigram record at an offset, and its size. -/
def readUnigram (dictionary : Dictionary) (offset : Nat) : Reading (Option (Unigram × Nat)) :=
  Reading.ofRecord (Unigram.readAt dictionary.version dictionary.content.records offset)

/-- The flags and the probability of the unigram record at an offset. -/
def readUnigramHead (dictionary : Dictionary) (offset : Nat) : Reading (Option (UInt8 × Nat)) :=
  Reading.ofRecord ((Reader.runAt Unigram.readHead dictionary.content.records offset).map (·.1))

/-- The bigram record at an offset. -/
def readBigram (dictionary : Dictionary) (offset : Nat) : Reading (Option BigramRecord) :=
  Reading.ofRecord (BigramRecord.readAt dictionary.version dictionary.content.records offset)

/-- The probability of a stored word, unless it must not be suggested. -/
def suggestibleProbability (dictionary : Dictionary) (terminal : Nat) : Reading (Option Int) :=
  (dictionary.readTerminal terminal).andThen fun record =>
    (dictionary.readUnigramHead record.unigram).andThen fun (flags, probability) =>
      if flagsNotAWord flags || flagsBlacklisted flags then pure none
      else pure (some (probability : Int))

/-- The table of the words that follow a stored word. -/
def followerTable (dictionary : Dictionary) (source : Nat) : Option Table :=
  dictionary.content.followers.nested? Forest.root (wordKey source)

/-- The offsets of a word's followers and of the bigram records, in the order in which the followers
were first added to the dictionary. -/
def followers (dictionary : Dictionary) (source : Nat) : List (Nat × Nat) :=
  match dictionary.followerTable source with
  | none => []
  | some table =>
      let relations := (dictionary.content.followers.entries table).map fun entry =>
        (wordOffset entry.key, entry.value)
      relations.mergeSort fun first second => first.1 ≤ second.1

/-- One bigram of a word, if its records can be read. -/
def readFollower (dictionary : Dictionary) (target record : Nat) : Reading (Option Bigram) :=
  (dictionary.readTerminal target).andThen fun terminal =>
    (dictionary.readBigram record).andThen fun bigram =>
      pure (some
        { target := terminal.word
          probability := bigram.probability
          history := bigram.history })

/-- The bigrams among the given relations that can be read. -/
def readFollowers (dictionary : Dictionary) : List (Nat × Nat) → Reading (List Bigram)
  | [] => pure []
  | (target, record) :: relations => do
      let first ← dictionary.readFollower target record
      let others ← readFollowers dictionary relations
      pure (first.toList ++ others)

/-- The bigrams of a stored word. -/
def bigrams (dictionary : Dictionary) (source : Nat) : Reading (List Bigram) :=
  dictionary.readFollowers (dictionary.followers source)

/-! ### Queries -/

/-- The probability of a word; there is none for words that are not stored or must not be
suggested. -/
def probability (dictionary : Dictionary) (word : Word) : Reading Int := do
  let found ← (dictionary.find word).andThen dictionary.suggestibleProbability
  pure (found.getD noProbability)

/-- The probability of one word following another. -/
def bigramProbability (dictionary : Dictionary) (first second : Word) : Reading Int := do
  let found ←
    (dictionary.find first).andThen fun source =>
      (dictionary.find second).andThen fun target =>
        match dictionary.followerTable source with
        | none => pure none
        | some table =>
            match dictionary.content.followers.get? table (wordKey target) with
            | none => pure none
            | some record =>
                (dictionary.readBigram record).andThen fun bigram =>
                  pure (some bigram.probability)
  pure (found.getD noProbability)

/-- All that is known about a word. -/
def property (dictionary : Dictionary) (word : Word) : Reading (Option WordProperty) :=
  (dictionary.find word).andThen fun offset =>
    (dictionary.readTerminal offset).andThen fun terminal =>
      (dictionary.readUnigram terminal.unigram).andThen fun (unigram, _) => do
        let bigrams ← dictionary.bigrams offset
        pure (some { word := terminal.word, unigram := unigram, bigrams := bigrams })

end Dictionary

end Lexicon

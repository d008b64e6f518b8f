/-
Module: Lexicon.Dictionary.Batch
Layer: Dictionary
Purpose: Adding many words and bigrams, with a stop where compaction becomes necessary.
Imports: Lexicon.Dictionary.Change
Trusted boundary: none
Main exports: BatchEntry, Dictionary.addEntry, Dictionary.addEntries
-/
import Lexicon.Dictionary.Change

namespace Lexicon

/-- A word to be added and, when the word before it is given, a bigram of the two. -/
structure BatchEntry where
  previous : Option Word := none
  word : Word
  probability : Int
  bigramProbability : Int := noProbability
  timestamp : Int32 := -1
  shortcut : Option Word := none
  shortcutProbability : Int := noProbability
  notAWord : Bool := false
  blacklisted : Bool := false
deriving Repr

namespace BatchEntry

/-- What the entry says about its word.  An empty shortcut is none. -/
def unigram (entry : BatchEntry) : Unigram :=
  let shortcuts :=
    match entry.shortcut with
    | none => []
    | some target =>
        if target.isEmpty then []
        else [{ target := target, probability := entry.shortcutProbability }]
  { probability := entry.probability
    notAWord := entry.notAWord
    blacklisted := entry.blacklisted
    history := History.typed entry.timestamp
    shortcuts := shortcuts }

/-- What the entry says about its word as a follower. -/
def bigram (entry : BatchEntry) : Bigram :=
  { target := entry.word
    probability := entry.bigramProbability
    history := History.typed entry.timestamp }

end BatchEntry

namespace Dictionary

/-- The dictionary after an entry.  What is refused is skipped. -/
def addEntry (dictionary : Dictionary) (entry : BatchEntry) : Dictionary :=
  let dictionary := ((addUnigram entry.word entry.unigram).apply dictionary).2
  match entry.previous with
  | none => dictionary
  | some previous => ((addBigram previous entry.bigram).apply dictionary).2

/-- Adds entries up to the one after which compaction is necessary, and counts on from `index`. -/
def addEntriesFrom : (index : Nat) → List BatchEntry → Dictionary → Nat × Dictionary
  | index, [], dictionary => (index, dictionary)
  | index, entry :: entries, dictionary =>
      let dictionary := dictionary.addEntry entry
      if dictionary.needsCompaction true then
        (index + 1, dictionary)
      else
        addEntriesFrom (index + 1) entries dictionary

/-- Adds the entries from a position on and answers with the position after the last one that was
added.  Beyond the end the answer is zero. -/
def addEntries (dictionary : Dictionary) (entries : List BatchEntry) (start : Nat) :
    Nat × Dictionary :=
  if entries.length ≤ start then
    (0, dictionary)
  else
    addEntriesFrom start (entries.drop start) dictionary

end Dictionary

end Lexicon

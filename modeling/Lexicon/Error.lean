/-
Module: Lexicon.Error
Layer: Domain
Purpose: The causes for which an operation is refused, and the wording of each.
Imports: Lexicon.Text.Hexadecimal, Lexicon.Text.Quoted, Lexicon.Word
Trusted boundary: none
Main exports: FileFault, FormatFault, Limit, Error, Error.message
-/
import Lexicon.Text.Hexadecimal
import Lexicon.Text.Quoted
import Lexicon.Word

namespace Lexicon

/-!
Absence is never an error: looking up a missing key or word answers with nothing.  An error is a
cause with the numbers that explain it; its wording is written once, in the `message` functions.
-/

/-- Why a file could not be read, written or removed. -/
inductive FileFault where
  /-- No file or directory has this name, or the directory it should be in does not exist. -/
  | notFound
  /-- The name is already taken. -/
  | alreadyExists
  /-- A directory cannot be mapped into memory. -/
  | notMappable
  /-- A part of the path that should be a directory is a file. -/
  | notADirectory
  /-- The operation works on files, and the name is that of a directory. -/
  | isADirectory
  /-- The bytes end before the value that is being read is complete. -/
  | endOfFile
deriving DecidableEq, Repr, Inhabited

/-- The system's wording of a file fault. -/
def FileFault.message : FileFault → String
  | .notFound => "No such file or directory (os error 2)"
  | .alreadyExists => "File exists (os error 17)"
  | .notMappable => "No such device (os error 19)"
  | .notADirectory => "Not a directory (os error 20)"
  | .isADirectory => "Is a directory (os error 21)"
  | .endOfFile => "failed to fill whole buffer"

/-- What is wrong with a persisted image, with a part of one, or with the records that were read
from one. -/
inductive FormatFault where
  | badSlotCount (count : Nat)
  | rootNotATable
  | valueTooWide (slot : Nat)
  | badNestedTable (slot target : Nat)
  | runOutOfBounds (slot : Nat)
  | nodeTooDeep (slot : Nat)
  | reachedTwice (slot : Nat)
  | misfiledKey (slot : Nat)
  | keyTooDeep (key : Int32)
  | unreadableRecord (word : Word)
  | badTerminal (offset : Nat)
  | compactingDamaged
  | recordsOutOfBounds
  | sourceDamaged
  | headerTextTooLong (length : Nat)
  | bufferTooLong (length : Nat)
  | tooManyAttributes
  | notAnImage
  | truncated
  | fieldOverrun (length left : Nat)
  | headerNotText
  | trailingBytes (count : Nat)
  | emptyFile (name : String)
  | windowOutside (offset size available : Nat)
deriving DecidableEq, Repr, Inhabited

/-- The wording of a format fault. -/
def FormatFault.message : FormatFault → String
  | .badSlotCount count => s!"bad trie slot count {count}"
  | .rootNotATable => "root slot is not a table"
  | .valueTooWide slot => s!"slot {slot}: value too wide"
  | .badNestedTable slot target => s!"slot {slot}: bad next-level reference {target}"
  | .runOutOfBounds slot => s!"slot {slot}: run out of bounds"
  | .nodeTooDeep slot => s!"slot {slot}: node below level 6"
  | .reachedTwice slot => s!"slot {slot}: reached twice"
  | .misfiledKey slot => s!"slot {slot}: key filed under the wrong labels"
  | .keyTooDeep key => s!"key {key} descends below level 6"
  | .unreadableRecord word => "unreadable record for " ++ Quoted.render word.text
  | .badTerminal offset => s!"bad terminal record at {offset}"
  | .compactingDamaged => "cannot compact a corrupted dictionary"
  | .recordsOutOfBounds => "dictionary records out of bounds"
  | .sourceDamaged => "source dictionary is corrupted"
  | .headerTextTooLong length => s!"header string of {length} bytes"
  | .bufferTooLong length => s!"buffer of {length} bytes"
  | .tooManyAttributes => "too many header attributes"
  | .notAnImage => "not a dictionary image"
  | .truncated => "truncated image"
  | .fieldOverrun length left => s!"field of {length} bytes overruns image ({left} left)"
  | .headerNotText => "header string is not UTF-8"
  | .trailingBytes count => s!"{count} trailing bytes"
  | .emptyFile name => s!"{name} is empty"
  | .windowOutside offset size available =>
      s!"window {offset}+{size} outside {available} byte file"

/-- The things of which a dictionary holds a limited number. -/
inductive Limit where
  | shortcuts
  | unigrams
  | bigrams
deriving DecidableEq, Repr, Inhabited

/-- The singular under which a limit is reported. -/
def Limit.noun : Limit → String
  | .shortcuts => "shortcut"
  | .unigrams => "unigram"
  | .bigrams => "bigram"

/-- Why an operation was refused. -/
inductive Error where
  | file (fault : FileFault)
  | valueOutOfRange (value bits : Nat)
  | forestFull
  | unsupportedVersion (number : Nat)
  | format (fault : FormatFault)
  | checksumMismatch (expected actual : Nat)
  | notUpdatable
  | invalidWord (length : Nat)
  | invalidProbability (probability : Int)
  | wordNotFound
  | bufferFull (used requested capacity : Nat)
  | limitReached (limit : Limit) (count : Nat)
deriving DecidableEq, Repr, Inhabited

/-- The wording of an error. -/
def Error.message : Error → String
  | .file fault => "I/O error: " ++ fault.message
  | .valueOutOfRange value bits =>
      "value " ++ Hexadecimal.plain value ++ s!" does not fit in {bits} bits"
  | .forestFull => "trie map slot space exhausted"
  | .unsupportedVersion number => s!"unsupported dictionary format version: {number}"
  | .format fault => "invalid dictionary image: " ++ fault.message
  | .checksumMismatch expected actual =>
      "checksum mismatch: expected " ++ Hexadecimal.word expected ++ ", got " ++
        Hexadecimal.word actual
  | .notUpdatable => "dictionary is not updatable"
  | .invalidWord length => s!"invalid word of length {length} (max {maxWordLength})"
  | .invalidProbability probability => s!"invalid probability: {probability}"
  | .wordNotFound => "word not found in dictionary"
  | .bufferFull used requested capacity =>
      s!"dictionary buffer full: {used} + {requested} bytes exceeds capacity {capacity}"
  | .limitReached limit count => limit.noun ++ s!" count limit {count} reached"

end Lexicon

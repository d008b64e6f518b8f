/-
Module: Lexicon.Record
Layer: Storage
Purpose: The records of words, unigrams and bigrams in the buffers of a dictionary.
Imports: Lexicon.Bytes.Cursor, Lexicon.Header, Lexicon.Property
Trusted boundary: none
Main exports: Terminal, Terminal.encode, Terminal.read, Unigram.encode, Unigram.read,
  Bigram.encode, BigramRecord.read
-/
import Lexicon.Bytes.Cursor
import Lexicon.Header
import Lexicon.Property

namespace Lexicon

/-!
Every word has one terminal record, which names the offset of its unigram record.  Records have no
marks between them: where one ends is known only by reading it.  Whether unigram and bigram records
carry history is fixed by the format version of the dictionary.
-/

/-! ### History -/

namespace History

/-- The bytes of a history: timestamp, level, count. -/
def encode (history : History) : List UInt8 :=
  LittleEndian.encodeSigned history.timestamp ++ [history.level, history.count]

/-- Reads the bytes of a history. -/
def read : Reader History := do
  let timestamp ← Reader.signed
  let level ← Reader.byte
  let count ← Reader.byte
  pure { timestamp := timestamp, level := level, count := count }

/-- The bytes of a history where the format has them, and none elsewhere. -/
def encodeFor (version : FormatVersion) (history : History) : List UInt8 :=
  if version.hasHistory then history.encode else []

/-- Reads a history where the format has one; elsewhere nothing is known. -/
def readFor (version : FormatVersion) : Reader History :=
  if version.hasHistory then read else pure unknown

end History

/-! ### Words -/

namespace Word

/-- The bytes of a word: its length, then its code points. -/
def encode (word : Word) : List UInt8 :=
  UInt8.ofNat word.length :: word.flatMap LittleEndian.encodeSigned

end Word

/-- The record of a word: its code points and the offset of its unigram record. -/
structure Terminal where
  word : Word
  unigram : Nat
deriving DecidableEq, Repr, Inhabited

namespace Terminal

/-- The bytes of a terminal record. -/
def encode (terminal : Terminal) : List UInt8 :=
  terminal.word.encode ++ LittleEndian.encode 4 terminal.unigram

/-- Reads a terminal record.  Empty and overlong words are no words. -/
def read : Reader Terminal := do
  let length ← Reader.byte
  if length.toNat = 0 || length.toNat > maxWordLength then
    failure
  else
    let word ← Reader.times Reader.signed length.toNat
    let unigram ← Reader.number 4
    pure { word := word, unigram := unigram }

/-- Where in its record the offset of the unigram record stands. -/
def pointerField (terminal : Terminal) : Nat := 1 + 4 * terminal.word.length

/-- The bytes that the record takes. -/
def size (terminal : Terminal) : Nat := terminal.pointerField + 4

/-- The terminal record at an offset of a buffer. -/
def readAt (buffer : ByteArray) (offset : Nat) : Option Terminal :=
  (Reader.runAt read buffer offset).map (·.1)

/-- A record takes some bytes, so the next one is further on. -/
theorem size_pos (terminal : Terminal) : 0 < terminal.size := Nat.succ_pos _

end Terminal

/-! ### Unigrams -/

/-- The first byte of a unigram record. -/
def Unigram.flags (unigram : Unigram) : UInt8 :=
  (if unigram.notAWord then 1 else 0) ||| (if unigram.blacklisted then 2 else 0)

/-- The flag of entries that are no words. -/
def flagsNotAWord (flags : UInt8) : Bool := flags &&& 1 != 0

/-- The flag of words that must not be suggested. -/
def flagsBlacklisted (flags : UInt8) : Bool := flags &&& 2 != 0

/-- The byte of a probability. -/
def probabilityByte (probability : Int) : UInt8 := UInt8.ofNat probability.toNat

namespace Shortcut

/-- The bytes of a shortcut: its probability and its target. -/
def encode (shortcut : Shortcut) : List UInt8 :=
  probabilityByte shortcut.probability :: shortcut.target.encode

/-- Reads the bytes of a shortcut; its target may have any length that a byte can tell. -/
def read : Reader Shortcut := do
  let probability ← Reader.byte
  let length ← Reader.byte
  let target ← Reader.times Reader.signed length.toNat
  pure { target := target, probability := probability.toNat }

end Shortcut

namespace Unigram

/-- The bytes of a unigram record. -/
def encode (version : FormatVersion) (unigram : Unigram) : List UInt8 :=
  [unigram.flags, probabilityByte unigram.probability] ++ unigram.history.encodeFor version ++
    UInt8.ofNat unigram.shortcuts.length :: unigram.shortcuts.flatMap Shortcut.encode

/-- Reads a unigram record. -/
def read (version : FormatVersion) : Reader Unigram := do
  let flags ← Reader.byte
  let probability ← Reader.byte
  let history ← History.readFor version
  let count ← Reader.byte
  let shortcuts ← Reader.times Shortcut.read count.toNat
  pure
    { probability := probability.toNat
      notAWord := flagsNotAWord flags
      blacklisted := flagsBlacklisted flags
      history := history
      shortcuts := shortcuts }

/-- The unigram record at an offset of a buffer, and the bytes it takes. -/
def readAt (version : FormatVersion) (buffer : ByteArray) (offset : Nat) : Option (Unigram × Nat) :=
  Reader.runAt (read version) buffer offset

/-- Reads only the flags and the probability of a unigram record. -/
def readHead : Reader (UInt8 × Nat) := do
  let flags ← Reader.byte
  let probability ← Reader.byte
  pure (flags, probability.toNat)

end Unigram

/-! ### Bigrams -/

/-- What is stored about a bigram: its words are known from where its record is found. -/
structure BigramRecord where
  probability : Int
  history : History
deriving DecidableEq, Repr

/-- The bytes of a bigram record. -/
def Bigram.encode (version : FormatVersion) (bigram : Bigram) : List UInt8 :=
  probabilityByte bigram.probability :: bigram.history.encodeFor version

namespace BigramRecord

/-- Reads a bigram record. -/
def read (version : FormatVersion) : Reader BigramRecord := do
  let probability ← Reader.byte
  let history ← History.readFor version
  pure { probability := probability.toNat, history := history }

/-- The bigram record at an offset of a buffer. -/
def readAt (version : FormatVersion) (buffer : ByteArray) (offset : Nat) : Option BigramRecord :=
  (Reader.runAt (read version) buffer offset).map (·.1)

/-- The bytes that every bigram record of a format takes. -/
def size (version : FormatVersion) : Nat :=
  if version.hasHistory then 7 else 1

end BigramRecord

theorem Bigram.length_encode (version : FormatVersion) (bigram : Bigram) :
    (bigram.encode version).length = BigramRecord.size version := by
  cases version <;>
    simp [Bigram.encode, BigramRecord.size, History.encodeFor, History.encode,
      FormatVersion.hasHistory, LittleEndian.encodeSigned]

end Lexicon

/-
Module: Lexicon.Property
Layer: Domain
Purpose: What a dictionary knows about a word, and about one word following another.
Imports: Lexicon.Word
Trusted boundary: none
Main exports: History, Shortcut, Unigram, Bigram, WordProperty, maxProbability, combine
-/
import Lexicon.Word

namespace Lexicon

/-- The largest probability that can be stored. -/
def maxProbability : Nat := 255

/-- The probability that is reported where there is none. -/
def noProbability : Int := -1

/-- Whether a probability can be stored. -/
def isProbability (probability : Int) : Bool :=
  0 ≤ probability && probability ≤ maxProbability

/-- The probability used for ranking a word after another one: the probability of the pair where
there is one, else that of the word itself.  A word without a probability stays without. -/
def combine (unigram bigram : Int) : Int :=
  if unigram = noProbability then noProbability
  else if bigram = noProbability then unigram
  else bigram

/-- When, at which level and how often something was typed.  Formats without history read it back
as the default, which says that nothing is known. -/
structure History where
  timestamp : Int32 := -1
  level : UInt8 := 0
  count : UInt8 := 0
deriving DecidableEq, Repr, Inhabited

/-- Nothing is known about the past. -/
def History.unknown : History := {}

/-- Something was just typed, for the first time. -/
def History.typed (timestamp : Int32) : History :=
  { timestamp := timestamp, level := 0, count := 1 }

/-- Another word that a word may be replaced by. -/
structure Shortcut where
  target : Word
  probability : Int
deriving DecidableEq, Repr, Inhabited

/-- What is known about a word by itself. -/
structure Unigram where
  probability : Int
  notAWord : Bool := false
  blacklisted : Bool := false
  history : History := .unknown
  shortcuts : List Shortcut := []
deriving DecidableEq, Repr

/-- Whether the word may be suggested. -/
def Unigram.suggestible (unigram : Unigram) : Bool :=
  !unigram.notAWord && !unigram.blacklisted

/-- What is known about a word that follows another one. -/
structure Bigram where
  target : Word
  probability : Int
  history : History := .unknown
deriving DecidableEq, Repr

/-- All that is known about a word. -/
structure WordProperty where
  word : Word
  unigram : Unigram
  bigrams : List Bigram
deriving DecidableEq, Repr

end Lexicon

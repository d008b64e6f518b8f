/-
Module: Lexicon.Configuration
Layer: Domain
Purpose: How large a dictionary may grow, and when it asks to be compacted.
Trusted boundary: none
Main exports: Configuration, Configuration.ofCapacity
-/

namespace Lexicon

/-- Limits of one open dictionary.  They are not stored with it: opening an image takes a
configuration again. -/
structure Configuration where
  /-- The bytes that records and slots may take together. -/
  capacity : Nat
  /-- The bytes in use at which compaction becomes necessary. -/
  compactionThreshold : Nat
  /-- The largest number of words. -/
  maxUnigrams : Nat
  /-- The largest number of bigrams. -/
  maxBigrams : Nat
  /-- The superseded bytes at which compaction is worth while for a caller who can wait. -/
  eagerSuperseded : Nat
deriving DecidableEq, Repr

namespace Configuration

/-- The room kept below the capacity before compaction is asked for. -/
def margin : Nat := 512 * 1024

/-- Limits for a given capacity: the threshold keeps the usual margin, or half of a small
capacity. -/
def ofCapacity (capacity : Nat) : Configuration :=
  { capacity := capacity
    compactionThreshold := capacity - min margin (capacity / 2)
    maxUnigrams := 200000
    maxBigrams := 1000000
    eagerSuperseded := 256 * 1024 }

/-- Eight mebibytes. -/
def standard : Configuration := ofCapacity (8 * 1024 * 1024)

instance : Inhabited Configuration := ⟨standard⟩

end Configuration

end Lexicon

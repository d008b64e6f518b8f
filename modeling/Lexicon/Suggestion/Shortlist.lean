/-
Module: Lexicon.Suggestion.Shortlist
Layer: Suggestion
Purpose: A list of the best candidates, of limited length.
Imports: Lexicon.Word
Trusted boundary: none
Main exports: Candidate, Shortlist, Shortlist.add, Shortlist.confidence
-/
import Lexicon.Word

namespace Lexicon

/-- A word and how well it fits. -/
structure Candidate where
  word : Word
  score : Int
deriving DecidableEq, Repr

/-- Candidates, best first, and how many there may be. -/
structure Shortlist where
  limit : Nat
  candidates : List Candidate
deriving DecidableEq, Repr

namespace Shortlist

/-- The usual limit. -/
def standardLimit : Nat := 18

/-- The shortlist without candidates. -/
def new (limit : Nat) : Shortlist := { limit := limit, candidates := [] }

/-- Puts a candidate behind those that are at least as good. -/
def insert (candidate : Candidate) : List Candidate → List Candidate
  | [] => [candidate]
  | first :: others =>
      if first.score ≥ candidate.score then first :: insert candidate others
      else candidate :: first :: others

/-- Adds a candidate.  Equal scores keep the order in which they were added, and whoever comes after
the limit drops out. -/
def add (shortlist : Shortlist) (candidate : Candidate) : Shortlist :=
  { shortlist with
    candidates := (insert candidate shortlist.candidates).take shortlist.limit }

/-- Takes all candidates off. -/
def clear (shortlist : Shortlist) : Shortlist := { shortlist with candidates := [] }

/-- How safe it is to commit the first candidate without asking: its lead over the second one, as a
signed 32-bit number, or its score when it stands alone. -/
def confidence (shortlist : Shortlist) : Int :=
  match shortlist.candidates with
  | [] => 0
  | [only] => only.score
  | first :: second :: _ => (first.score - second.score).bmod 0x100000000

end Shortlist

end Lexicon

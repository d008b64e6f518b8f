/-
Module: Lexicon.Dictionary.Compaction
Layer: Dictionary
Purpose: Rebuilding a dictionary from what can be read of it.
Imports: Lexicon.Dictionary.Change, Lexicon.Dictionary.Traversal
Trusted boundary: none
Main exports: Compaction, Dictionary.replay, Dictionary.compact
-/
import Lexicon.Dictionary.Change
import Lexicon.Dictionary.Traversal

namespace Lexicon

/-!
Compaction adds all words and then all bigrams of a dictionary to an empty one.  It takes effect
only if everything could be read and added; damage that is met on the way is remembered in the
dictionary even when nothing else happens.
-/

/-- A compaction under way. -/
structure Compaction where
  /-- The dictionary that is being read. -/
  source : Dictionary
  /-- The dictionary that is being filled. -/
  fresh : Dictionary

namespace Compaction

/-- Damage is noted in the dictionary that is being read. -/
instance : MonadLift Reading (StateM Compaction) where
  monadLift reading := fun compaction =>
    let (value, source) := compaction.source.note reading
    (value, { compaction with source := source })

/-- Changes the dictionary that is being filled. -/
def onFresh {α : Type} : Mutation Dictionary α → Mutation Compaction α :=
  Mutation.onPart (·.fresh) fun compaction fresh => { compaction with fresh := fresh }

end Compaction

namespace Dictionary

/-- Adds a word to the dictionary that is being filled. -/
def replayUnigram (dictionary : Dictionary) (word : Word) : Mutation Compaction Unit := do
  match ← dictionary.property word with
  | some property => Compaction.onFresh (addUnigram word property.unigram)
  | none => throw (.format (.unreadableRecord word))

/-- Adds the bigrams of a word to the dictionary that is being filled. -/
def replayBigrams (dictionary : Dictionary) (word : Word) : Mutation Compaction Unit := do
  match ← dictionary.find word with
  | none => throw .wordNotFound
  | some offset =>
      let bigrams ← dictionary.bigrams offset
      bigrams.forM fun bigram => Compaction.onFresh (addBigram word bigram)

/-- Adds all words to the dictionary that is being filled, and then all bigrams, so that every bigram
finds both of its words. -/
def replay (dictionary : Dictionary) : Mutation Compaction Unit := do
  dictionary.forWords dictionary.replayUnigram 0
  dictionary.forWords dictionary.replayBigrams 0

/-- Replaces the content by what a replay of it gives, without superseded bytes and without tables
that nothing leads to.  A dictionary known to be damaged is not compacted. -/
def compact : Mutation Dictionary Unit :=
  Mutation.ofChange fun dictionary =>
    if dictionary.damaged then
      (.error (.format .compactingDamaged), dictionary)
    else
      let fresh := empty dictionary.header dictionary.configuration
      match dictionary.replay.apply { source := dictionary, fresh := fresh } with
      | (.error error, compaction) => (.error error, compaction.source)
      | (.ok (), compaction) =>
          if compaction.source.damaged then
            (.error (.format .recordsOutOfBounds), compaction.source)
          else
            (.ok (), { compaction.source with content := compaction.fresh.content, superseded := 0 })

end Dictionary

end Lexicon

/-
Module: Lexicon.Migration
Layer: Dictionary
Purpose: Rebuilding a dictionary at another format version, in a file.
Imports: Lexicon.Dictionary.Storage
Trusted boundary: none
Main exports: MigrationStep, MigrationFailure, PartialOutput, Migration, Dictionary.migrate
-/
import Lexicon.Dictionary.Storage

namespace Lexicon

/-!
A migration adds the words of its source to a new dictionary, and then the bigrams.  Before each word
the new dictionary is compacted, flushed and opened again if it has to be; that keeps it within its
limits, and may leave a file behind when the migration fails later on.
-/

/-- What a migration was doing when it failed. -/
inductive MigrationStep where
  | creating
  | readingWord
  | compacting
  | reopening
  | addingUnigram
  | addingBigram
  | readingSource
  | writing
deriving DecidableEq, Repr, Inhabited

/-- The wording of a step. -/
def MigrationStep.text : MigrationStep → String
  | .creating => "creating the destination"
  | .readingWord => "reading a source word"
  | .compacting => "compacting the destination"
  | .reopening => "reopening the destination"
  | .addingUnigram => "adding a unigram"
  | .addingBigram => "adding a bigram"
  | .readingSource => "reading the source"
  | .writing => "writing the destination"

/-- Why a migration failed, and in which step. -/
structure MigrationFailure where
  step : MigrationStep
  cause : Error
deriving DecidableEq, Repr, Inhabited

/-- The wording of a failure. -/
def MigrationFailure.message (failure : MigrationFailure) : String :=
  "migration failed while " ++ failure.step.text ++ ": " ++ failure.cause.message

/-- What becomes of a file that a failed migration has written. -/
inductive PartialOutput where
  | remove
  | keep
deriving DecidableEq, Repr, Inhabited

/-- Where a migration writes to, and within which limits. -/
structure MigrationTarget where
  name : String
  configuration : Configuration

/-- A migration under way. -/
structure Migration where
  source : Dictionary
  destination : Dictionary
  directory : Directory
  /-- Whether the file has been written. -/
  flushed : Bool

namespace Migration

/-- A part of a migration. -/
abbrev Stage := ExceptT MigrationFailure (StateM Migration)

/-- Damage is noted in the source. -/
instance : MonadLift Reading (StateM Migration) where
  monadLift reading := fun migration =>
    let (value, source) := migration.source.note reading
    (value, { migration with source := source })

/-- Does something that may be refused as a step of the migration. -/
def inStep {α : Type} (step : MigrationStep) (change : Migration → Except Error α × Migration) :
    Stage α :=
  fun migration =>
    match change migration with
    | (.ok value, migration) => (.ok value, migration)
    | (.error cause, migration) => (.error { step := step, cause := cause }, migration)

/-- Compacts the destination and writes it to its file. -/
def flush (target : MigrationTarget) (migration : Migration) : Except Error Unit × Migration :=
  let (answer, destination, directory) :=
    migration.destination.flushCompacted migration.directory target.name
  (answer, { migration with destination := destination, directory := directory })

/-- Opens the destination from its file. -/
def reopen (target : MigrationTarget) (migration : Migration) : Except Error Unit × Migration :=
  match Dictionary.openFile migration.directory target.name 0 0 true target.configuration with
  | .ok destination => (.ok (), { migration with destination := destination })
  | .error error => (.error error, migration)

/-- Changes the destination. -/
def change (change : Mutation Dictionary Unit) (migration : Migration) :
    Except Error Unit × Migration :=
  let (answer, destination) := change.apply migration.destination
  (answer, { migration with destination := destination })

/-- Compacts the destination by way of its file, if it has to be compacted. -/
def makeRoom (target : MigrationTarget) : Stage Unit := do
  let migration ← get
  if migration.destination.needsCompaction true then
    inStep .compacting (flush target)
    modify fun migration => { migration with flushed := true }
    inStep .reopening (reopen target)

/-- Adds a word to the destination. -/
def addUnigram (word : Word) (property : WordProperty) : Stage Unit :=
  inStep .addingUnigram (change (Dictionary.addUnigram word property.unigram))

/-- Adds the bigrams of a word to the destination. -/
def addBigrams (word : Word) (property : WordProperty) : Stage Unit :=
  property.bigrams.forM fun bigram =>
    inStep .addingBigram (change (Dictionary.addBigram word bigram))

/-- Goes through the words of the source once.  The walk ends early at a record that cannot be read,
which shows only in the source having become damaged. -/
def pass (source : Dictionary) (target : MigrationTarget)
    (add : Word → WordProperty → Stage Unit) : Stage Unit := do
  source.forWords
    (fun word => do
      match ← source.property word with
      | none => throw { step := .readingWord, cause := .format (.unreadableRecord word) }
      | some property =>
          makeRoom target
          add word property)
    0
  let migration ← get
  if migration.source.damaged then
    throw { step := .readingSource, cause := .format .sourceDamaged }

/-- All of a migration once its destination is created. -/
def run (source : Dictionary) (target : MigrationTarget) : Stage Unit := do
  pass source target addUnigram
  pass source target addBigrams
  inStep .writing (flush target)

end Migration

namespace Dictionary

/-- Rebuilds a dictionary at the format version with the given number and writes it to a file.  A
file that was written on the way is removed on failure, unless it is to be kept.  The answer comes
with the source, which may have been found damaged, and with the directory. -/
def migrate (source : Dictionary) (directory : Directory) (target : MigrationTarget)
    (versionNumber : Nat) (partialOutput : PartialOutput) :
    Except MigrationFailure Unit × Dictionary × Directory :=
  match create versionNumber source.header.locale source.header.attributes
      target.configuration with
  | .error cause => (.error { step := .creating, cause := cause }, source, directory)
  | .ok destination =>
      let start : Migration :=
        { source := source, destination := destination, directory := directory, flushed := false }
      match (Migration.run source target).run.run start with
      | (.ok (), migration) => (.ok (), migration.source, migration.directory)
      | (.error failure, migration) =>
          if migration.flushed && partialOutput = .remove then
            (.error failure, migration.source, migration.directory.discardFile target.name)
          else
            (.error failure, migration.source, migration.directory)

end Dictionary

end Lexicon

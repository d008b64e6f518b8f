/-
Module: Lexicon.Proofs.Dictionary.Remnant
Layer: Proofs
Purpose: What a migration that fails leaves in its directory: nothing new, nothing at all, or the file
  of the last flush on the way, which says what the source says up to some word.
Imports: Lexicon.Proofs.Dictionary.Recording, Lexicon.Proofs.Dictionary.Transfer,
  Mathlib.Data.List.TakeWhile
Trusted boundary: none
Main exports: Dictionary.gathered, Dictionary.Segment, Dictionary.Tells, Migration.Recorded.Leaves,
  Migration.Recorded.ends_makeRoom, Migration.Recorded.ends_run, Dictionary.migrate_remnant
-/
import Lexicon.Proofs.Dictionary.Recording
import Lexicon.Proofs.Dictionary.Transfer
import Mathlib.Data.List.TakeWhile

namespace Lexicon

open Vocabulary Directory

namespace Dictionary

/-! ### What a source says up to some word -/

/-- A vocabulary to which the unigram of a word of a source was added. -/
def withUnigram (source : Dictionary) (version : FormatVersion) (known : Vocabulary) (word : Word) :
    Vocabulary :=
  match (source.property word).value with
  | none => known
  | some property => known.store word (property.unigram.kept version)

/-- A vocabulary to which a bigram was added. -/
def withBigram (version : FormatVersion) (word : Word) (known : Vocabulary) (bigram : Bigram) :
    Vocabulary :=
  known.relate word bigram.target (bigram.record version)

/-- A vocabulary to which the bigrams of a word of a source were added. -/
def withBigrams (source : Dictionary) (version : FormatVersion) (known : Vocabulary) (word : Word) :
    Vocabulary :=
  match (source.property word).value with
  | none => known
  | some property => property.bigrams.foldl (withBigram version word) known

/-- The vocabulary that comes of adding the unigrams of some words of a source, and then the bigrams
of some words, in a format. -/
def gathered (source : Dictionary) (version : FormatVersion) (words related : List Word) :
    Vocabulary :=
  related.foldl (source.withBigrams version) (words.foldl (source.withUnigram version) {})

section Gathering

variable {source : Dictionary} {version : FormatVersion} {word : Word} {property : WordProperty}

/-- One more word has its unigram added. -/
theorem gathered_concat (known : (source.property word).value = some property) (words : List Word) :
    source.gathered version (words ++ [word]) [] =
      (source.gathered version words []).store word (property.unigram.kept version) := by
  simp only [gathered, List.foldl_nil, List.foldl_concat, withUnigram, known]

/-- One more word has its bigrams added. -/
theorem gathered_linked_concat (known : (source.property word).value = some property)
    (words related : List Word) :
    source.gathered version words (related ++ [word]) =
      property.bigrams.foldl (withBigram version word) (source.gathered version words related) := by
  simp only [gathered, List.foldl_concat, withBigrams, known]

end Gathering

/-- How far one pass through a source and then another one have come: each through the words at the
beginning, and the second one nowhere unless the first one came to the end. -/
structure Segment (source : Dictionary) (words related : List Word) : Prop where
  added : words <+: source.visited
  linked : related <+: source.visited
  ordered : related = [] ∨ words = source.visited

/-- A dictionary has a header, and nothing else can be read of it than what a vocabulary says. -/
structure Tells (dictionary : Dictionary) (header : Header) (vocabulary : Vocabulary) : Prop where
  header : dictionary.header = header
  undamaged : dictionary.damaged = false
  visited : dictionary.visited = vocabulary.spelled
  property : ∀ word, dictionary.property word = pure (vocabulary.property word)
  unigramCount : dictionary.content.unigramCount = vocabulary.words.length
  bigramCount : dictionary.content.bigramCount = vocabulary.bigrams.size

/-- The words of a vocabulary are gone through in their order. -/
theorem Represents.visited {dictionary : Dictionary} {vocabulary : Vocabulary}
    (represents : dictionary.Represents vocabulary) : dictionary.visited = vocabulary.spelled := by
  rw [Dictionary.visited, visitedFrom, represents.walk_words]
  split
  next none =>
    rw [none]
    rfl
  next =>
    refine List.takeWhile_eq_self_iff.mpr fun word member => ?_
    have filled := (represents.content.storable_word member).1
    simpa using filled

/-- The terminal records are all that is read on the way through the words. -/
theorem visited_congr {first second : Dictionary}
    (same : second.content.terminals = first.content.terminals) : second.visited = first.visited := by
  rw [Dictionary.visited, Dictionary.visited, visitedFrom, visitedFrom, walk_congr same]

theorem Represents.tells {dictionary : Dictionary} {vocabulary : Vocabulary}
    (represents : dictionary.Represents vocabulary) :
    Tells dictionary dictionary.header vocabulary :=
  ⟨rfl, represents.undamaged, represents.visited, represents.property,
    represents.content.unigramCount, represents.content.bigramCount⟩

/-! ### What flushing changes -/

section Flushing

variable {dictionary after : Dictionary} {directory left : Directory} {name : String} {error : Error}

/-- Where flushing fails, the file is retained. -/
theorem retained_of_flush (failed : dictionary.flush directory name = (.error error, left)) :
    Retained name directory left := by
  rw [flush] at failed
  split at failed
  next =>
    cases failed
    exact .refl name directory
  next =>
    split at failed
    next =>
      cases failed
      exact .refl name directory
    next image _ =>
      rcases outcome : directory.replaceFile name image.toByteArray with ⟨answer, replaced⟩
      rw [outcome] at failed
      cases answer with
      | ok => cases failed
      | error fault =>
          cases failed
          exact retained_of_replaceFile outcome

/-- Where flushing with compaction fails, the file is retained. -/
theorem retained_of_flushCompacted
    (failed : dictionary.flushCompacted directory name = (.error error, after, left)) :
    Retained name directory left := by
  rw [flushCompacted] at failed
  split at failed
  next =>
    cases failed
    exact .refl name directory
  next =>
    split at failed
    next =>
      cases failed
      exact .refl name directory
    next compacted _ =>
      rcases outcome : compacted.flush directory name with ⟨answer, written⟩
      rw [outcome] at failed
      cases failed
      exact retained_of_flush outcome

/-- Where flushing with compaction succeeds, nothing has changed but the file. -/
theorem confined_of_flushCompacted
    (done : dictionary.flushCompacted directory name = (.ok (), after, left)) :
    Confined name directory left := by
  have flushed := (flushCompacted_eq_ok.mp done).2.2
  rw [flush] at flushed
  split at flushed
  next => cases flushed
  next =>
    split at flushed
    next => cases flushed
    next image _ =>
      have replaced := confined_replaceFile directory name image.toByteArray
      rwa [show (directory.replaceFile name image.toByteArray).2 = left from
        congrArg Prod.snd flushed] at replaced

end Flushing

end Dictionary

namespace Migration

open Dictionary

/-! ### Steps that may fail -/

/-- A step ends as the change in it does. -/
theorem ends_inStep {α : Type} {holds fails : Migration → Prop} {gives : α → Migration → Prop}
    {step : MigrationStep} {change : Migration → Except Error α × Migration}
    (each : ∀ migration answer after, holds migration → change migration = (answer, after) →
      match answer with
      | .ok value => gives value after
      | .error _ => fails after) :
    Ends holds (inStep step change) gives fails :=
  ends_iff.mpr (meets_inStep each)

namespace Recorded

/-- Something in which nothing is recorded ends as it does without a record. -/
theorem ends_silently {α : Type} {holds fails : Recorded → Prop} {gives : α → Recorded → Prop}
    {stage : Migration.Stage α}
    (ends : ∀ flushes, Ends (fun migration => holds ⟨migration, flushes⟩) stage
      (fun value migration => gives value ⟨migration, flushes⟩)
      (fun migration => fails ⟨migration, flushes⟩)) :
    Ends holds (silently stage) gives fails := by
  intro recorded holding
  have ended := ends recorded.flushes recorded.migration holding
  have ran : (silently stage).run.run recorded =
      ((stage.run.run recorded.migration).1,
        { recorded with migration := (stage.run.run recorded.migration).2 }) := rfl
  rw [ran]
  generalize stage.run.run recorded.migration = outcome at ended
  obtain ⟨answer, migration⟩ := outcome
  cases answer with
  | ok value => exact ended
  | error failure => exact ended

/-! ### What is kept up -/

/-- What a migration leaves if it fails now.  Only its file has changed, and that only by a flush on
the way: it holds the image of what was flushed last, and that is what the source says up to some
word. -/
structure Leaves (source : Dictionary) (header : Header) (name : String) (before : Directory)
    (recorded : Recorded) : Prop where
  confined : Confined name before recorded.migration.directory
  flushed : recorded.migration.flushed = !recorded.flushes.isEmpty
  untouched : recorded.flushes = [] →
    recorded.migration.directory.item? (path name) = before.item? (path name)
  last : ∀ {last : Dictionary} {earlier : List Dictionary}, recorded.flushes = last :: earlier →
    ∃ image words related, Image.encode last.header last.content = .ok image ∧
      recorded.migration.directory.mapFile name = .ok image.toByteArray ∧
      Segment source words related ∧
      Imprint header (source.gathered header.version words related) image

/-- A migration that has brought a vocabulary to its destination. -/
structure Partway (source : Dictionary) (header : Header) (target : MigrationTarget)
    (before : Directory) (vocabulary : Vocabulary) (recorded : Recorded) : Prop
    extends Leaves source header target.name before recorded where
  header : recorded.migration.destination.header = header
  configuration : recorded.migration.destination.configuration = target.configuration
  represents : recorded.migration.destination.Represents vocabulary

/-- A migration that has written a vocabulary to its file. -/
structure Filed (source : Dictionary) (header : Header) (target : MigrationTarget)
    (before : Directory) (vocabulary : Vocabulary) (recorded : Recorded) : Prop
    extends Leaves source header target.name before recorded where
  image : ∃ image, Imprint header vocabulary image ∧
    recorded.migration.directory.mapFile target.name = .ok image.toByteArray

section Keeping

variable {source : Dictionary} {header : Header} {target : MigrationTarget} {before : Directory}
  {vocabulary next : Vocabulary} {words related : List Word}

/-- Where the file is retained, what is left is what was left before. -/
theorem Leaves.retained {name : String} {recorded : Recorded}
    (leaves : Leaves source header name before recorded) {directory : Directory}
    (retained : Retained name recorded.migration.directory directory) (destination : Dictionary) :
    Leaves source header name before
      { recorded with migration :=
          { recorded.migration with destination := destination, directory := directory } } := by
  refine ⟨leaves.confined.trans retained.toConfined, leaves.flushed, fun none => ?_, fun some => ?_⟩
  · exact retained.file.trans (leaves.untouched none)
  · obtain ⟨image, words, related, encoded, mapped, segment, imprint⟩ := leaves.last some
    exact ⟨image, words, related, encoded, retained.mapFile mapped, segment, imprint⟩

/-- Reading in the source gives what is read, and changes nothing else than the source. -/
theorem ends_reading {α : Type} (reading : Reading α) :
    Ends (Partway source header target before vocabulary) (liftM reading : Stage α)
      (fun value recorded =>
        value = reading.value ∧ Partway source header target before vocabulary recorded)
      (Leaves source header target.name before) := by
  intro recorded partway
  obtain ⟨⟨confined, flushed, untouched, last⟩, same, configuration, represents⟩ := partway
  exact ⟨rfl, ⟨confined, flushed, untouched, last⟩, same, configuration, represents⟩

/-- Flushing the destination on the way writes what is to be recorded, or leaves what was there. -/
theorem ends_flush (segment : Segment source words related)
    (all : source.gathered header.version words related = vocabulary) (step : MigrationStep) :
    Ends (Partway source header target before vocabulary)
      (silently (inStep step (flush target)))
      (fun _ recorded => Filed source header target before vocabulary recorded.noteFlush)
      (Leaves source header target.name before) := by
  refine ends_silently fun flushes => ends_inStep fun migration answer after partway done => ?_
  rw [flush] at done
  rcases outcome : migration.destination.flushCompacted migration.directory target.name with
    ⟨result, destination, directory⟩
  rw [outcome] at done
  cases done
  cases answer with
  | error error => exact partway.toLeaves.retained (retained_of_flushCompacted outcome) destination
  | ok =>
      obtain ⟨_, compacted, flushed⟩ := flushCompacted_eq_ok.mp outcome
      obtain ⟨image, encoded, mapped⟩ := exists_image_of_flush flushed
      have imprint := partway.represents.imprint_of_compact compacted encoded
      rw [partway.header] at imprint
      refine ⟨⟨?_, rfl, fun none => ?_, fun some => ?_⟩, image, imprint, mapped⟩
      · exact partway.confined.trans (confined_of_flushCompacted outcome)
      · cases none
      · cases some
        exact ⟨image, words, related, encoded, mapped, segment, all ▸ imprint⟩

/-- Opening the destination from its file brings back what was written. -/
theorem ends_reopen (step : MigrationStep) :
    Ends (Filed source header target before vocabulary) (silently (inStep step (reopen target)))
      (fun _ => Partway source header target before vocabulary)
      (Leaves source header target.name before) := by
  refine ends_silently fun flushes => ends_inStep fun migration answer after filed done => ?_
  obtain ⟨image, imprint, mapped⟩ := filed.image
  obtain ⟨opened, found, same, configuration, _, represents⟩ :=
    imprint.openFile mapped true target.configuration
  rw [reopen, found] at done
  cases done
  refine ⟨?_, same, configuration, represents⟩
  exact filed.toLeaves.retained (.refl _ _) opened

/-- Making room keeps what was brought to the destination. -/
theorem ends_makeRoom (segment : Segment source words related)
    (all : source.gathered header.version words related = vocabulary) :
    Ends (Partway source header target before vocabulary) (makeRoom target)
      (fun _ => Partway source header target before vocabulary)
      (Leaves source header target.name before) := by
  refine .bind_get fun recorded partway => .ite (fun _ => ?_) fun _ => ?_
  · have flushed : Ends (· = recorded) (silently (inStep .compacting (flush target)))
        (fun _ recorded => Filed source header target before vocabulary recorded.noteFlush)
        (Leaves source header target.name before) :=
      fun state same => ends_flush segment all .compacting state (same ▸ partway)
    exact flushed.bind fun _ => Ends.bind (.modify fun _ filed => filed) fun _ =>
      ends_reopen .reopening
  · refine .pure ?_
    rintro _ rfl
    exact partway

/-- A change that is made to the destination is made to what was brought there. -/
theorem ends_change {step : MigrationStep} {change : Mutation Dictionary Unit}
    {flushes : List Dictionary}
    (decided : ∀ {destination : Dictionary}, destination.Represents vocabulary →
      destination.header = header →
        ∃ accepted room, Decides accepted change destination next room) :
    Ends (fun migration => Partway source header target before vocabulary ⟨migration, flushes⟩)
      (inStep step (Migration.change change))
      (fun _ migration => Partway source header target before next ⟨migration, flushes⟩)
      (fun migration => Leaves source header target.name before ⟨migration, flushes⟩) := by
  refine ends_inStep fun migration answer after partway done => ?_
  obtain ⟨accepted, room, decides⟩ := decided partway.represents partway.header
  rw [Migration.change] at done
  rcases outcome : change.apply migration.destination with ⟨result, destination⟩
  rw [outcome] at done
  cases done
  have leaves := partway.toLeaves.retained (.refl _ _) destination
  cases answer with
  | error error => exact leaves
  | ok =>
      have changed := (decides.made outcome).2
      exact ⟨leaves, changed.header.trans partway.header,
        changed.configuration.trans partway.configuration, changed.represents⟩

/-- A word is looked up, room is made for it, and then something is done with what is known about
it. -/
theorem ends_visitWord {add : Word → WordProperty → Migration.Stage Unit}
    (segment : Segment source words related)
    (all : source.gathered header.version words related = vocabulary) {word : Word}
    (each : ∀ {property : WordProperty}, (source.property word).value = some property →
      Ends (Partway source header target before vocabulary) (silently (add word property))
        (fun _ => Partway source header target before next)
        (Leaves source header target.name before)) :
    Ends (Partway source header target before vocabulary) (visitWord source target add word)
      (fun _ => Partway source header target before next)
      (Leaves source header target.name before) := by
  refine (ends_reading _).bind_eq ?_
  cases known : (source.property word).value with
  | none => exact .throw fun _ partway => partway.toLeaves
  | some property => exact (ends_makeRoom segment all).bind fun _ => each known

/-- A pass does something for each word that the source goes through, in order; `reached` is what was
brought to the destination when that was done for some of them. -/
theorem ends_pass {add : Word → WordProperty → Migration.Stage Unit}
    (reached : List Word → Vocabulary)
    (covered : ∀ {done : List Word}, done <+: source.visited → ∃ words related,
      Segment source words related ∧ source.gathered header.version words related = reached done)
    (each : ∀ (done : List Word) {word : Word} {property : WordProperty},
      (source.property word).value = some property →
        Ends (Partway source header target before (reached done)) (silently (add word property))
          (fun _ => Partway source header target before (reached (done ++ [word])))
          (Leaves source header target.name before)) :
    Ends (Partway source header target before (reached [])) (pass source target add)
      (fun _ => Partway source header target before (reached source.visited))
      (Leaves source header target.name before) := by
  have visited : Ends (Partway source header target before (reached []))
      (source.forWords (visitWord source target add) 0)
      (fun _ => Partway source header target before (reached source.visited))
      (Leaves source header target.name before) := by
    refine Ends.forWords source (fun done => Partway source header target before (reached done))
      (fun done => ends_reading) fun {done rest word} split => ?_
    obtain ⟨words, related, segment, all⟩ := covered ⟨word :: rest, split.symm⟩
    exact ends_visitWord segment all (each done)
  refine visited.bind fun _ => .bind_get fun recorded partway => .ite (fun _ => ?_) fun _ => ?_
  · refine .throw ?_
    rintro _ rfl
    exact partway.toLeaves
  · refine .pure ?_
    rintro _ rfl
    exact partway

/-- The pass that adds the unigrams. -/
theorem ends_words :
    Ends (Partway source header target before (source.gathered header.version [] []))
      (pass source target addUnigram)
      (fun _ => Partway source header target before
        (source.gathered header.version source.visited []))
      (Leaves source header target.name before) := by
  refine ends_pass (fun done => source.gathered header.version done []) ?_ ?_
  · intro done begun
    exact ⟨done, [], ⟨begun, List.nil_prefix, .inl rfl⟩, rfl⟩
  · intro done word property known
    refine ends_silently fun flushes => ends_change fun represents same => ?_
    have decided := represents.addUnigram word property.unigram
    rw [Dictionary.version, same] at decided
    rw [gathered_concat known]
    exact ⟨_, _, decided⟩

/-- The pass that adds the bigrams. -/
theorem ends_bigrams :
    Ends (Partway source header target before (source.gathered header.version source.visited []))
      (pass source target addBigrams)
      (fun _ => Partway source header target before
        (source.gathered header.version source.visited source.visited))
      (Leaves source header target.name before) := by
  refine ends_pass (fun done => source.gathered header.version source.visited done) ?_ ?_
  · intro done begun
    exact ⟨source.visited, done, ⟨List.prefix_rfl, begun, .inr rfl⟩, rfl⟩
  · intro done word property known
    rw [gathered_linked_concat known]
    generalize source.gathered header.version source.visited done = start
    refine ends_silently fun flushes => ?_
    refine Ends.forM property.bigrams (fun added migration =>
      Partway source header target before (added.foldl (withBigram header.version word) start)
        ⟨migration, flushes⟩) fun {added rest bigram} _ => ?_
    refine ends_change fun represents same => ?_
    have decided := represents.addBigram word bigram
    rw [Dictionary.version, same] at decided
    rw [List.foldl_concat]
    exact ⟨_, _, decided⟩

/-- Wherever a migration fails, it leaves nothing but the file of the last flush on the way. -/
theorem ends_run :
    Ends (Partway source header target before {}) (run source target) (fun _ _ => True)
      (Leaves source header target.name before) := by
  refine ends_words.bind fun _ => ends_bigrams.bind fun _ => ?_
  have segment : Segment source source.visited source.visited :=
    ⟨List.prefix_rfl, List.prefix_rfl, .inr rfl⟩
  exact (ends_flush segment rfl .writing).weaken fun _ _ _ => trivial

end Keeping

end Recorded

end Migration

namespace Dictionary

open Migration

/-! ### Migrations that fail -/

/-- What is left of its file by a migration that failed after some dictionaries were flushed on the
way, the last one first.  If none was, it is the file from before.  Otherwise it is none, or the image
of the last one, from which everything can be read that comes of adding to an empty dictionary the
unigrams of the source up to some word, and, once all are added, the bigrams up to some word. -/
def Remnant (source : Dictionary) (directory left : Directory) (name : String)
    (versionNumber : Nat) : PartialOutput → List Dictionary → Prop
  | _, [] => left.item? (path name) = directory.item? (path name)
  | .remove, _ :: _ => left.item? (path name) = none
  | .keep, last :: _ =>
      ∃ version image words related, FormatVersion.ofNumber versionNumber = .ok version ∧
        Image.encode last.header last.content = .ok image ∧
        left.mapFile name = .ok image.toByteArray ∧
        Segment source words related ∧
        ∀ updatable limits, ∃ opened, openFile left name 0 0 updatable limits = .ok opened ∧
          Tells opened { source.header with version := version }
            (source.gathered version words related)

section Failing

variable {source after : Dictionary} {directory left : Directory} {target : MigrationTarget}
  {versionNumber : Nat} {partialOutput : PartialOutput} {failure : MigrationFailure}

/-- What the run of a migration leaves if it fails. -/
theorem leaves_of_recordedRun {version : FormatVersion} {recorded : Recorded}
    (failed : source.recordedRun directory target version = (.error failure, recorded)) :
    Recorded.Leaves source { source.header with version := version } target.name directory
      recorded := by
  let start : Migration :=
    { source := source
      destination := empty { source.header with version := version } target.configuration
      directory := directory
      flushed := false }
  have begun : Recorded.Partway source { source.header with version := version } target directory {}
      ⟨start, []⟩ :=
    ⟨⟨.refl _ _, rfl, fun _ => rfl, nofun⟩, rfl, rfl, represents_empty _ _⟩
  have ended := Recorded.ends_run _ begun
  change source.recordedRun directory target version = _ at failed
  rw [show (Recorded.run source target).run.run ⟨start, []⟩ = _ from failed] at ended
  exact ended

/-- What was left when the run failed is kept, or removed if it was flushed on the way. -/
theorem remnant_of_leaves {version : FormatVersion} {recorded : Recorded} {name : String}
    (supported : FormatVersion.ofNumber versionNumber = .ok version)
    (leaves : Recorded.Leaves source { source.header with version := version } name directory
      recorded) (partialOutput : PartialOutput)
    (remains : left = if recorded.migration.flushed && partialOutput = .remove then
        recorded.migration.directory.discardFile name
      else recorded.migration.directory) :
    Confined name directory left ∧
      source.Remnant directory left name versionNumber partialOutput recorded.flushes := by
  rw [leaves.flushed] at remains
  cases some : recorded.flushes with
  | nil =>
      rw [some] at remains
      subst remains
      refine ⟨leaves.confined, ?_⟩
      cases partialOutput with
      | remove => exact leaves.untouched some
      | keep => exact leaves.untouched some
  | cons last earlier =>
      rw [some] at remains
      subst remains
      obtain ⟨image, words, related, encoded, mapped, segment, imprint⟩ := leaves.last some
      cases partialOutput with
      | remove =>
          obtain ⟨gone, confined⟩ := discardFile_of_mapFile mapped
          exact ⟨leaves.confined.trans confined, gone⟩
      | keep =>
          refine ⟨leaves.confined, version, image, words, related, supported, encoded, mapped,
            segment, fun updatable limits => ?_⟩
          obtain ⟨opened, found, same, _, _, represents⟩ := imprint.openFile mapped updatable limits
          exact ⟨opened, found, same ▸ represents.tells⟩

/-- A migration that fails changes nothing but its file, and leaves nothing beside it.  If the
format is not supported, it changes nothing at all.  Otherwise the file is what it was before, or,
once the destination was flushed on the way, it is removed, or kept as it was last flushed. -/
theorem migrate_remnant (failed : source.migrate directory target versionNumber partialOutput =
      (.error failure, after, left)) :
    Confined target.name directory left ∧
      (∀ cause, FormatVersion.ofNumber versionNumber = .error cause →
        failure = { step := .creating, cause := cause } ∧ left = directory ∧
          source.flushesOf directory target versionNumber = []) ∧
      source.Remnant directory left target.name versionNumber partialOutput
        (source.flushesOf directory target versionNumber) := by
  cases supported : FormatVersion.ofNumber versionNumber with
  | error cause =>
      rw [migrate_eq_of_error supported] at failed
      cases failed
      have none : source.flushesOf directory target versionNumber = [] := by
        rw [flushesOf, supported]
      refine ⟨.refl _ _, fun reason same => ?_, ?_⟩
      · cases same
        exact ⟨rfl, rfl, none⟩
      · rw [none]
        cases partialOutput with
        | remove => rfl
        | keep => rfl
  | ok version =>
      rw [migrate_eq_of_ok supported] at failed
      rcases ran : source.recordedRun directory target version with ⟨answer, recorded⟩
      have flushes := flushesOf_eq_of_ok supported ran
      rw [ran] at failed
      cases answer with
      | ok => cases failed
      | error reason =>
          cases failed
          obtain ⟨confined, remnant⟩ :=
            remnant_of_leaves supported (leaves_of_recordedRun ran) partialOutput rfl
          refine ⟨confined, ?_, flushes ▸ remnant⟩
          intro cause unsupported
          cases unsupported

/-- Two words. -/
def couple : List Operation :=
  [.request (.addUnigram [97] { probability := 7 }),
    .request (.addUnigram [98] { probability := 5 })]

/-- A file for a single word. -/
def strait : MigrationTarget := ⟨"m", { Configuration.standard with maxUnigrams := 1 }⟩

/-- The second word is refused, after a flush on the way. -/
theorem exists_recordedRun_couple : ∃ recorded,
    (reached .standard couple).recordedRun .empty strait .historical =
      (.error { step := .addingUnigram, cause := .limitReached .unigrams 1 }, recorded) ∧
    recorded.flushes.length = 1 := by
  have ran : (match (reached .standard couple).recordedRun .empty strait .historical with
      | (.error failure, recorded) => recorded.flushes.length = 1 &&
          failure = { step := .addingUnigram, cause := .limitReached .unigrams 1 }
      | _ => false) = true := by
    decide +kernel
  split at ran
  next failure recorded outcome =>
    rw [Bool.and_eq_true, decide_eq_true_eq, decide_eq_true_eq] at ran
    exact ⟨recorded, by rw [outcome, ran.2], ran.1⟩
  next => cases ran

/-- The file with one word is kept or removed, and in a format that is not supported there is none. -/
theorem migrate_remnant_couple :
    ∃ failure after kept left,
      (reached .standard couple).visited = [[97], [98]] ∧
      (reached .standard couple).migrate .empty strait 403 .keep = (.error failure, after, kept) ∧
      (reached .standard couple).migrate .empty strait 403 .remove = (.error failure, after, left) ∧
      ((reached .standard couple).flushesOf .empty strait 403).length = 1 ∧
      left.item? (path "m") = none ∧
      (∃ words related opened, Segment (reached .standard couple) words related ∧
        openFile kept "m" 0 0 true .standard = .ok opened ∧
        Tells opened { (reached .standard couple).header with version := .historical }
          ((reached .standard couple).gathered .historical words related)) ∧
      (reached .standard couple).migrate .empty strait 9 .keep =
        (.error { step := .creating, cause := .unsupportedVersion 9 }, reached .standard couple,
          .empty) ∧
      (reached .standard couple).flushesOf .empty strait 9 = [] := by
  obtain ⟨recorded, ran, one⟩ := exists_recordedRun_couple
  have supported : FormatVersion.ofNumber 403 = .ok .historical := rfl
  have keeping := migrate_eq_of_ok supported (reached .standard couple) .empty strait .keep
  have removing := migrate_eq_of_ok supported (reached .standard couple) .empty strait .remove
  have refused := migrate_eq_of_error (show FormatVersion.ofNumber 9 = .error _ from rfl)
    (reached .standard couple) .empty strait .keep
  rw [ran] at keeping removing
  have flushes := flushesOf_eq_of_ok supported ran
  obtain ⟨_, _, remnant⟩ := migrate_remnant keeping
  obtain ⟨_, _, nothing⟩ := migrate_remnant removing
  obtain ⟨_, none, _⟩ := migrate_remnant refused
  rw [flushes] at remnant nothing
  obtain ⟨last, some⟩ := List.length_eq_one_iff.mp one
  rw [some] at remnant nothing
  obtain ⟨version, image, words, related, same, _, _, segment, opens⟩ := remnant
  cases supported.symm.trans same
  obtain ⟨opened, found, tells⟩ := opens true .standard
  exact ⟨_, _, _, _, by decide +kernel, keeping, removing, by rw [flushes, one], nothing,
    ⟨words, related, opened, segment, found, tells⟩, refused, (none _ rfl).2.2⟩

end Failing

end Dictionary

end Lexicon

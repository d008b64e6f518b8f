/-
Module: Lexicon.Proofs.Dictionary.Recording
Layer: Proofs
Purpose: The words that a pass goes through, and migrations with a record of the dictionaries that
  were flushed on the way; the record changes nothing in what they do.
Imports: Lexicon.Proofs.Migration
Trusted boundary: none
Main exports: Dictionary.visited, Meets.forWords, Ends.forWords, Migration.Recorded,
  Migration.Recorded.run, Migration.Recorded.erases_run, Dictionary.flushesOf,
  Dictionary.migrate_eq_of_ok
-/
import Lexicon.Proofs.Migration

namespace Lexicon

/-! ### The words that are gone through -/

namespace Dictionary

/-- A walk gives what stands at its token, and then what it gives from the next token on. -/
theorem value_walk (dictionary : Dictionary) (token : Nat) :
    (dictionary.walk token).value = (dictionary.nextWord token).value ::
      if (dictionary.nextWord token).value.2 = 0 then []
      else (dictionary.walk (dictionary.nextWord token).value.2).value := by
  rw [walk]
  split
  next => rfl
  next => simp only [Reading.value_bind, Reading.value_pure]

/-- The words of a walk from a token on, up to the first that is empty. -/
def visitedFrom (dictionary : Dictionary) (token : Nat) : List Word :=
  ((dictionary.walk token).value.map (·.1)).takeWhile fun word => !word.isEmpty

/-- The words that are gone through, in order. -/
def visited (dictionary : Dictionary) : List Word := dictionary.visitedFrom 0

/-- The words from a token on are the word there and the words from the next token on. -/
theorem visitedFrom_eq (dictionary : Dictionary) (token : Nat) :
    dictionary.visitedFrom token =
      if (dictionary.nextWord token).value.1.isEmpty then []
      else (dictionary.nextWord token).value.1 ::
        if (dictionary.nextWord token).value.2 = 0 then []
        else dictionary.visitedFrom (dictionary.nextWord token).value.2 := by
  rw [visitedFrom, value_walk, List.map_cons, List.takeWhile_cons]
  cases empty : (dictionary.nextWord token).value.1.isEmpty with
  | true => rfl
  | false =>
      simp only [Bool.not_false, if_true, Bool.false_eq_true, if_false]
      split
      next => rfl
      next => rfl

end Dictionary

namespace Meets

variable {σ ε : Type} {errs : ε → σ → Prop}

/-- A walk visits one word after the other; `stage` is what holds when some of them were, and what is
read leaves it. -/
theorem forWords [MonadLiftT Reading (ExceptT ε (StateM σ))] (dictionary : Dictionary)
    {visit : Word → ExceptT ε (StateM σ) Unit} (stage : List Word → σ → Prop)
    (reads : ∀ done (reading : Reading (Word × Nat)),
      Meets (stage done) (liftM reading : ExceptT ε (StateM σ) (Word × Nat))
        (fun value after => value = reading.value ∧ stage done after) errs)
    (visits : ∀ {done rest : List Word} {word : Word}, dictionary.visited = done ++ word :: rest →
      Meets (stage done) (visit word) (fun _ => stage (done ++ [word])) errs) :
    Meets (stage []) (dictionary.forWords visit 0) (fun _ => stage dictionary.visited) errs := by
  have further : ∀ (token : Nat) (done : List Word),
      dictionary.visited = done ++ dictionary.visitedFrom token →
      Meets (stage done) (dictionary.forWords visit token) (fun _ => stage dictionary.visited)
        errs := by
    intro token
    induction token using Dictionary.walk_induction dictionary with
    | step token ih =>
        intro done split
        rw [dictionary.visitedFrom_eq token] at split
        rw [Dictionary.forWords]
        refine (reads done _).bind_eq ?_
        refine .ite (fun empty => .pure fun state holding => ?_) fun filled => ?_
        · rw [if_pos empty, List.append_nil] at split
          rwa [split]
        · rw [if_neg filled] at split
          refine (visits split).bind fun _ => ?_
          split
          next ended =>
            rw [if_pos ended] at split
            rw [split]
            exact .pure fun _ holding => holding
          next onwards =>
            rw [if_neg onwards] at split
            exact ih onwards _ (by rw [split, List.append_assoc, List.singleton_append])
  exact further 0 [] rfl

end Meets

namespace Ends

variable {σ ε : Type} {fails : σ → Prop}

theorem forWords [MonadLiftT Reading (ExceptT ε (StateM σ))] (dictionary : Dictionary)
    {visit : Word → ExceptT ε (StateM σ) Unit} (stage : List Word → σ → Prop)
    (reads : ∀ done (reading : Reading (Word × Nat)),
      Ends (stage done) (liftM reading : ExceptT ε (StateM σ) (Word × Nat))
        (fun value after => value = reading.value ∧ stage done after) fails)
    (visits : ∀ {done rest : List Word} {word : Word}, dictionary.visited = done ++ word :: rest →
      Ends (stage done) (visit word) (fun _ => stage (done ++ [word])) fails) :
    Ends (stage []) (dictionary.forWords visit 0) (fun _ => stage dictionary.visited) fails :=
  ends_iff.mpr (Meets.forWords dictionary stage (fun done reading => ends_iff.mp (reads done reading))
    fun split => ends_iff.mp (visits split))

end Ends

/-! ### Migrations with a record -/

namespace Migration

/-- A migration under way, with the dictionaries that were flushed on the way, as they were written;
the last one comes first. -/
structure Recorded where
  migration : Migration
  flushes : List Dictionary

namespace Recorded

/-- A part of a migration with a record. -/
abbrev Stage := ExceptT MigrationFailure (StateM Recorded)

/-- Damage is noted in the source. -/
instance : MonadLift Reading (StateM Recorded) where
  monadLift reading := fun recorded =>
    let (value, source) := recorded.migration.source.note reading
    (value, { recorded with migration := { recorded.migration with source := source } })

/-- Does a part of a migration in which nothing is recorded. -/
def silently {α : Type} (stage : Migration.Stage α) : Stage α := fun recorded =>
  let (answer, migration) := stage.run.run recorded.migration
  (answer, { recorded with migration := migration })

/-- Records that the destination was flushed. -/
def noteFlush (recorded : Recorded) : Recorded :=
  { migration := { recorded.migration with flushed := true }
    flushes := recorded.migration.destination :: recorded.flushes }

/-- Compacts the destination by way of its file, if it has to be compacted, and records what was
flushed. -/
def makeRoom (target : MigrationTarget) : Stage Unit := do
  let recorded ← get
  if recorded.migration.destination.needsCompaction true then
    silently (inStep .compacting (flush target))
    modify noteFlush
    silently (inStep .reopening (reopen target))

/-- What a pass does with a word. -/
def visitWord (source : Dictionary) (target : MigrationTarget)
    (add : Word → WordProperty → Migration.Stage Unit) (word : Word) : Stage Unit := do
  match ← source.property word with
  | none => throw { step := .readingWord, cause := .format (.unreadableRecord word) }
  | some property =>
      makeRoom target
      silently (add word property)

/-- Goes through the words of the source once. -/
def pass (source : Dictionary) (target : MigrationTarget)
    (add : Word → WordProperty → Migration.Stage Unit) : Stage Unit := do
  source.forWords (visitWord source target add) 0
  let recorded ← get
  if recorded.migration.source.damaged then
    throw { step := .readingSource, cause := .format .sourceDamaged }

/-- All of a migration once its destination is created. -/
def run (source : Dictionary) (target : MigrationTarget) : Stage Unit := do
  pass source target addUnigram
  pass source target addBigrams
  silently (inStep .writing (flush target))

/-! ### The record changes nothing -/

/-- Without its record, something does what something else does. -/
def Erases {α : Type} (stage : Stage α) (plain : Migration.Stage α) : Prop :=
  ∀ recorded : Recorded, plain.run.run recorded.migration =
    ((stage.run.run recorded).1, (stage.run.run recorded).2.migration)

namespace Erases

variable {α β : Type}

theorem pure (value : α) : Erases (Pure.pure value) (Pure.pure value) := fun _ => rfl

theorem throw (failure : MigrationFailure) :
    Erases (MonadExcept.throw failure : Stage α) (MonadExcept.throw failure) := fun _ => rfl

theorem silently (stage : Migration.Stage α) : Erases (silently stage) stage := fun _ => rfl

theorem reading (reading : Reading α) :
    Erases (liftM reading : Stage α) (liftM reading) := fun _ => rfl

theorem modify {change : Recorded → Recorded} {other : Migration → Migration}
    (same : ∀ recorded, other recorded.migration = (change recorded).migration) :
    Erases (modify change) (modify other) := by
  intro recorded
  exact congrArg (Prod.mk (Except.ok ())) (same recorded)

theorem bind {first : Stage α} {next : α → Stage β} {plain : Migration.Stage α}
    {other : α → Migration.Stage β} (erases : Erases first plain)
    (rest : ∀ value, Erases (next value) (other value)) :
    Erases (first >>= next) (plain >>= other) := by
  intro recorded
  have between := erases recorded
  rw [ExceptT.run_bind, StateT.run_bind, ExceptT.run_bind, StateT.run_bind, between]
  generalize StateT.run (ExceptT.run first) recorded = outcome
  obtain ⟨answer, middle⟩ := outcome
  cases answer with
  | error failure => rfl
  | ok value => exact rest value middle

/-- What follows may depend on the state, but not on the record. -/
theorem bind_get {next : Recorded → Stage β} {other : Migration → Migration.Stage β}
    (rest : ∀ recorded, Erases (next recorded) (other recorded.migration)) :
    Erases (get >>= next) (get >>= other) := fun recorded => rest recorded recorded

theorem ite {condition : Prop} [Decidable condition] {first second : Stage α}
    {plain other : Migration.Stage α} (here : Erases first plain) (there : Erases second other) :
    Erases (if condition then first else second) (if condition then plain else other) := by
  split
  next => exact here
  next => exact there

theorem forWords (dictionary : Dictionary) {visit : Word → Stage Unit}
    {other : Word → Migration.Stage Unit} (visits : ∀ word, Erases (visit word) (other word))
    (token : Nat) : Erases (dictionary.forWords visit token) (dictionary.forWords other token) := by
  induction token using Dictionary.walk_induction dictionary with
  | step token ih =>
      unfold Dictionary.forWords
      refine (reading _).bind fun outcome => ?_
      refine ite (pure ()) ((visits _).bind fun _ => ?_)
      split
      next => exact pure ()
      next onwards => exact ih onwards

end Erases

theorem erases_makeRoom (target : MigrationTarget) :
    Erases (makeRoom target) (Migration.makeRoom target) := by
  refine .bind_get fun recorded => .ite ?_ (.pure ())
  exact (Erases.silently _).bind fun _ => (Erases.modify fun _ => rfl).bind fun _ => .silently _

theorem erases_pass (source : Dictionary) (target : MigrationTarget)
    (add : Word → WordProperty → Migration.Stage Unit) :
    Erases (pass source target add) (Migration.pass source target add) := by
  have visits : ∀ word, Erases (visitWord source target add word)
      (Migration.visitWord source target add word) := by
    intro word
    refine (Erases.reading _).bind fun property => ?_
    cases property with
    | none => exact .throw _
    | some property => exact (erases_makeRoom target).bind fun _ => .silently _
  exact (Erases.forWords source visits 0).bind fun _ => .bind_get fun recorded =>
    .ite (.throw _) (.pure ())

/-- A migration with a record does what a migration does. -/
theorem erases_run (source : Dictionary) (target : MigrationTarget) :
    Erases (run source target) (Migration.run source target) :=
  (erases_pass source target _).bind fun _ => (erases_pass source target _).bind fun _ =>
    .silently _

end Recorded

end Migration

namespace Dictionary

open Migration

/-- The run of a migration to a format, with a record. -/
def recordedRun (source : Dictionary) (directory : Directory) (target : MigrationTarget)
    (version : FormatVersion) : Except MigrationFailure Unit × Recorded :=
  let start : Migration :=
    { source := source
      destination := empty { source.header with version := version } target.configuration
      directory := directory
      flushed := false }
  (Recorded.run source target).run.run ⟨start, []⟩

/-- The dictionaries that a migration flushes on the way, before its end, the last one first. -/
def flushesOf (source : Dictionary) (directory : Directory) (target : MigrationTarget)
    (versionNumber : Nat) : List Dictionary :=
  match FormatVersion.ofNumber versionNumber with
  | .error _ => []
  | .ok version => (source.recordedRun directory target version).2.flushes

variable {versionNumber : Nat}

/-- In a format that is not supported, a migration does nothing. -/
theorem migrate_eq_of_error {cause : Error}
    (unsupported : FormatVersion.ofNumber versionNumber = .error cause) (source : Dictionary)
    (directory : Directory) (target : MigrationTarget) (partialOutput : PartialOutput) :
    source.migrate directory target versionNumber partialOutput =
      (.error { step := .creating, cause := cause }, source, directory) := by
  have refused : create versionNumber source.header.locale source.header.attributes
      target.configuration = .error cause := by
    rw [create, unsupported]
    rfl
  rw [migrate, refused]

theorem flushesOf_eq_of_ok {version : FormatVersion} {source : Dictionary} {directory : Directory}
    {target : MigrationTarget} {answer : Except MigrationFailure Unit} {recorded : Recorded}
    (supported : FormatVersion.ofNumber versionNumber = .ok version)
    (ran : source.recordedRun directory target version = (answer, recorded)) :
    source.flushesOf directory target versionNumber = recorded.flushes := by
  rw [flushesOf, supported]
  exact congrArg (fun outcome => outcome.2.flushes) ran

/-- In a format that is supported, a migration does what its run with a record does. -/
theorem migrate_eq_of_ok {version : FormatVersion}
    (supported : FormatVersion.ofNumber versionNumber = .ok version) (source : Dictionary)
    (directory : Directory) (target : MigrationTarget) (partialOutput : PartialOutput) :
    source.migrate directory target versionNumber partialOutput =
      match source.recordedRun directory target version with
      | (.ok (), recorded) => (.ok (), recorded.migration.source, recorded.migration.directory)
      | (.error failure, recorded) => (.error failure, recorded.migration.source,
          if recorded.migration.flushed && partialOutput = .remove then
            recorded.migration.directory.discardFile target.name
          else recorded.migration.directory) := by
  have created : create versionNumber source.header.locale source.header.attributes
      target.configuration =
        .ok (empty { source.header with version := version } target.configuration) :=
    create_eq_ok_iff.mpr ⟨version, supported, rfl⟩
  rw [migrate, created, recordedRun]
  dsimp only
  rw [Recorded.erases_run source target ⟨_, []⟩]
  generalize (Recorded.run source target).run.run _ = outcome
  obtain ⟨answer, recorded⟩ := outcome
  cases answer with
  | ok => rfl
  | error failure =>
      dsimp only
      split
      next => rfl
      next => rfl

end Dictionary

end Lexicon

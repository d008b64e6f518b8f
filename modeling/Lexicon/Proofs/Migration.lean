/-
Module: Lexicon.Proofs.Migration
Layer: Proofs
Purpose: A migration changes its destination and its file, and leaves its source as it is, but for
  damage that is noted in it.
Imports: Lexicon.Migration, Lexicon.Proofs.Dictionary.Walk, Lexicon.Proofs.Preservation
Trusted boundary: none
Main exports: Dictionary.Noted, Migration.meets_inStep, Dictionary.migrate_noted,
  Dictionary.Represents.migrate_source
-/
import Lexicon.Migration
import Lexicon.Proofs.Dictionary.Walk
import Lexicon.Proofs.Preservation

namespace Lexicon

open Vocabulary

/-! ### Dictionaries with more damage noted -/

namespace Dictionary

/-- A dictionary as it is when at most damage was noted in it. -/
def Noted (before after : Dictionary) : Prop := after = { before with damaged := after.damaged }

namespace Noted

variable {before between after : Dictionary}

theorem refl (dictionary : Dictionary) : Noted dictionary dictionary := rfl

theorem trans (first : Noted before between) (second : Noted between after) :
    Noted before after := by
  rw [Noted, first] at second
  exact second

theorem note {α : Type} (noted : Noted before after) (reading : Reading α) :
    Noted before (after.note reading).2 := noted.trans rfl

theorem content (noted : Noted before after) : after.content = before.content := by
  rw [noted]

theorem header (noted : Noted before after) : after.header = before.header := by
  rw [noted]

theorem superseded (noted : Noted before after) : after.superseded = before.superseded := by
  rw [noted]

end Noted

end Dictionary

namespace Migration

/-! ### What a migration does to its source -/

/-- A step ends as the change in it does. -/
theorem meets_inStep {α : Type} {holds : Migration → Prop} {gives : α → Migration → Prop}
    {errs : MigrationFailure → Migration → Prop} {step : MigrationStep}
    {change : Migration → Except Error α × Migration}
    (each : ∀ migration answer after, holds migration → change migration = (answer, after) →
      match answer with
      | .ok value => gives value after
      | .error cause => errs { step := step, cause := cause } after) :
    Meets holds (inStep step change) gives errs := by
  intro migration holding
  rcases outcome : change migration with ⟨answer, after⟩
  have ended := each migration answer after holding outcome
  have ran : (inStep step change).run.run migration = inStep step change migration := rfl
  rw [ran, inStep, outcome]
  cases answer with
  | ok value => exact ended
  | error cause => exact ended

section Source

/-- Something holds of the source of a migration. -/
def OfSource (holds : Dictionary → Prop) (migration : Migration) : Prop := holds migration.source

variable {α : Type} {holds : Dictionary → Prop}

theorem preserves_inStep {step : MigrationStep} {change : Migration → Except Error α × Migration}
    (keeps : ∀ migration, (change migration).2.source = migration.source) :
    Preserves (OfSource holds) (inStep step change) := by
  intro migration here
  have kept := keeps migration
  show holds (inStep step change migration).2.source
  rw [inStep]
  generalize change migration = outcome at kept
  obtain ⟨answer, after⟩ := outcome
  cases answer with
  | error cause => exact kept ▸ here
  | ok value => exact kept ▸ here

theorem source_reopen (target : MigrationTarget) (migration : Migration) :
    (reopen target migration).2.source = migration.source := by
  rw [reopen]
  split
  next => rfl
  next => rfl

theorem preserves_makeRoom (target : MigrationTarget) :
    Preserves (OfSource holds) (makeRoom target) := by
  refine .bind .get fun migration => .ite ?_ (.pure ())
  refine .bind (preserves_inStep fun _ => rfl) fun _ => ?_
  exact .bind (.modify fun _ => id) fun _ => preserves_inStep (source_reopen target)

theorem preserves_addUnigram (word : Word) (property : WordProperty) :
    Preserves (OfSource holds) (addUnigram word property) :=
  preserves_inStep fun _ => rfl

theorem preserves_addBigrams (word : Word) (property : WordProperty) :
    Preserves (OfSource holds) (addBigrams word property) :=
  .forM fun _ => preserves_inStep fun _ => rfl

/-- What a pass does with a word. -/
def visitWord (source : Dictionary) (target : MigrationTarget)
    (add : Word → WordProperty → Stage Unit) (word : Word) : Stage Unit := do
  match ← source.property word with
  | none => throw { step := .readingWord, cause := .format (.unreadableRecord word) }
  | some property =>
      makeRoom target
      add word property

/-- What is kept by the readings of a pass and by what is done with each word is kept by the pass. -/
theorem preserves_visits {pass : Stage Unit}
    (keeps : Preserves (OfSource holds) pass) :
    Preserves (OfSource holds) (do
      pass
      let migration ← get
      if migration.source.damaged then
        throw { step := .readingSource, cause := .format .sourceDamaged }) :=
  .bind keeps fun _ => .bind .get fun _ => .ite (.throw _) (.pure ())

theorem preserves_lift (noted : ∀ {dictionary : Dictionary}, holds dictionary →
      ∀ {β : Type} (reading : Reading β), holds (dictionary.note reading).2) (reading : Reading α) :
    Preserves (OfSource holds) (liftM reading : Stage α) :=
  fun _ here => noted here reading

/-- Visiting a word keeps what noting damage keeps. -/
theorem preserves_visitWord (noted : ∀ {dictionary : Dictionary}, holds dictionary →
      ∀ {β : Type} (reading : Reading β), holds (dictionary.note reading).2)
    (source : Dictionary) (target : MigrationTarget) {add : Word → WordProperty → Stage Unit}
    (keeps : ∀ word property, Preserves (OfSource holds) (add word property)) (word : Word) :
    Preserves (OfSource holds) (visitWord source target add word) := by
  refine .bind (preserves_lift noted _) fun property => ?_
  cases property with
  | none => exact .throw _
  | some property => exact .bind (preserves_makeRoom target) fun _ => keeps word property

/-- Going through the words keeps what noting damage keeps. -/
theorem preserves_words (noted : ∀ {dictionary : Dictionary}, holds dictionary →
      ∀ {β : Type} (reading : Reading β), holds (dictionary.note reading).2)
    (source : Dictionary) (target : MigrationTarget) {add : Word → WordProperty → Stage Unit}
    (keeps : ∀ word property, Preserves (OfSource holds) (add word property)) :
    Preserves (OfSource holds) (source.forWords (visitWord source target add) 0) :=
  .forWords source (preserves_lift noted) (preserves_visitWord noted source target keeps) 0

/-- A pass keeps what noting damage keeps. -/
theorem preserves_pass (noted : ∀ {dictionary : Dictionary}, holds dictionary →
      ∀ {β : Type} (reading : Reading β), holds (dictionary.note reading).2)
    (source : Dictionary) (target : MigrationTarget) {add : Word → WordProperty → Stage Unit}
    (keeps : ∀ word property, Preserves (OfSource holds) (add word property)) :
    Preserves (OfSource holds) (pass source target add) :=
  preserves_visits (preserves_words noted source target keeps)

theorem preserves_run {source : Dictionary} {target : MigrationTarget}
    (passes : ∀ {add : Word → WordProperty → Stage Unit},
      (∀ word property, Preserves (OfSource holds) (add word property)) →
        Preserves (OfSource holds) (pass source target add)) :
    Preserves (OfSource holds) (run source target) :=
  .bind (passes preserves_addUnigram) fun _ =>
    .bind (passes preserves_addBigrams) fun _ => preserves_inStep fun _ => rfl

end Source

/-- A reading without damage leaves the source as it is. -/
theorem lift_pure {α : Type} (value : α) :
    (liftM (pure value : Reading α) : Stage α) = pure value := by
  funext migration
  obtain ⟨source, destination, directory, flushed⟩ := migration
  show ((Except.ok value, _) : Except MigrationFailure α × Migration) = (Except.ok value, _)
  simp

end Migration

namespace Dictionary

open Migration

variable {source : Dictionary}

/-- What holds of the source, and is kept by the run of a migration, holds of the source after it. -/
theorem migrate_preserves (holds : Dictionary → Prop) (here : holds source) (directory : Directory)
    {target : MigrationTarget} (versionNumber : Nat) (partialOutput : PartialOutput)
    (keeps : Preserves (OfSource holds) (Migration.run source target)) :
    holds (source.migrate directory target versionNumber partialOutput).2.1 := by
  rw [migrate]
  split
  next => exact here
  next destination _ =>
    have kept := keeps { source, destination, directory, flushed := false } here
    dsimp only
    generalize (Migration.run source target).run.run
      { source, destination, directory, flushed := false } = outcome at kept
    obtain ⟨answer, after⟩ := outcome
    cases answer with
    | ok => exact kept
    | error failure =>
        dsimp only
        split
        next => exact kept
        next => exact kept

/-- A migration at most notes damage in its source, whatever comes of it. -/
theorem migrate_noted (source : Dictionary) (directory : Directory) (target : MigrationTarget)
    (versionNumber : Nat) (partialOutput : PartialOutput) :
    Noted source (source.migrate directory target versionNumber partialOutput).2.1 :=
  migrate_preserves (Noted source) (.refl source) directory versionNumber partialOutput
    (preserves_run fun keeps => preserves_pass (fun noted => noted.note) source target keeps)

/-- A migration leaves a source that can be read as it is, whatever comes of it. -/
theorem Represents.migrate_source {vocabulary : Vocabulary} (represents : source.Represents vocabulary)
    (directory : Directory) (target : MigrationTarget) (versionNumber : Nat)
    (partialOutput : PartialOutput) :
    (source.migrate directory target versionNumber partialOutput).2.1 = source := by
  refine migrate_preserves (· = source) rfl directory versionNumber partialOutput
    (preserves_run fun {add} keeps => ?_)
  rw [Migration.pass, represents.forWords_eq lift_pure]
  refine preserves_visits (.forM fun word => ?_)
  rw [represents.property, lift_pure, pure_bind]
  cases vocabulary.property word with
  | none => exact .throw _
  | some property => exact .bind (preserves_makeRoom target) fun _ => keeps word property

end Dictionary

end Lexicon

/-
Module: Lexicon.Proofs.Dictionary.Lifetime
Layer: Proofs
Purpose: What dictionaries can come to be that were created, used in any way, and opened again from
  their images; all of them say what some vocabulary says.
Imports: Lexicon.Dictionary.Batch, Lexicon.Proofs.Dictionary.Completions,
  Lexicon.Proofs.Dictionary.Filling, Lexicon.Proofs.Dictionary.Reopening,
  Lexicon.Proofs.Dictionary.Session, Lexicon.Proofs.Migration
Trusted boundary: none
Main exports: Dictionary.Operation, Dictionary.Session.perform, Dictionary.Session.Healthy,
  Dictionary.Session.Healthy.speaks
-/
import Lexicon.Dictionary.Batch
import Lexicon.Proofs.Dictionary.Completions
import Lexicon.Proofs.Dictionary.Filling
import Lexicon.Proofs.Dictionary.Reopening
import Lexicon.Proofs.Dictionary.Session
import Lexicon.Proofs.Migration

namespace Lexicon

open Vocabulary

/-- The requests that an entry of a batch stands for. -/
def BatchEntry.requests (entry : BatchEntry) : List Dictionary.Request :=
  .addUnigram entry.word entry.unigram ::
    match entry.previous with
    | none => []
    | some previous => [.addBigram previous entry.bigram]

namespace Dictionary

/-- Something that is done with a dictionary and may show in it afterwards. -/
inductive Operation where
  | request (request : Request)
  | addEntries (entries : List BatchEntry) (start : Nat)
  | completions (stem : Word)
  | suggest (request : SuggestionRequest) (shortlist : Shortlist)
  | predict (previous : Word) (shortlist : Shortlist)
  | flushCompacted (directory : Directory) (name : String)
  | migrate (directory : Directory) (target : MigrationTarget) (versionNumber : Nat)
      (partialOutput : PartialOutput)

namespace Session

/-- Goes on with another dictionary. -/
def goOn (session : Session) (dictionary : Dictionary) : Session := ⟨dictionary, session.tokens⟩

/-- What an operation leaves behind. -/
def perform (session : Session) : Operation → Session
  | .request request => (session.step request).2
  | .addEntries entries start => session.goOn (session.dictionary.addEntries entries start).2
  | .completions stem =>
      session.goOn (session.dictionary.note (session.dictionary.completions stem)).2
  | .suggest request shortlist =>
      session.goOn (session.dictionary.note (session.dictionary.suggest request shortlist)).2
  | .predict previous shortlist =>
      session.goOn (session.dictionary.note (session.dictionary.predict previous shortlist)).2
  | .flushCompacted directory name =>
      session.goOn (session.dictionary.flushCompacted directory name).2.1
  | .migrate directory target versionNumber partialOutput =>
      session.goOn (session.dictionary.migrate directory target versionNumber partialOutput).2.1

/-- What some operations leave behind, one after the other. -/
def drive (session : Session) (operations : List Operation) : Session :=
  operations.foldl perform session

/-- The sessions with dictionaries that were created, or opened from the image of a healthy one, and
then used in any way. -/
inductive Healthy : Session → Prop where
  | created {number : Nat} {locale : String} {attributes : Attributes} {limits : Configuration}
      {dictionary : Dictionary} (created : create number locale attributes limits = .ok dictionary) :
      Healthy (start dictionary)
  | opened {session : Session} {opened : Dictionary} (healthy : Healthy session)
      (reopened : Reopened session.dictionary opened) : Healthy (start opened)
  | performed {session : Session} (healthy : Healthy session) (operation : Operation) :
      Healthy (session.perform operation)

/-! ### Batches -/

theorem run_append (session : Session) (requests more : List Request) :
    (session.run (requests ++ more)).2 = ((session.run requests).2.run more).2 := by
  induction requests generalizing session with
  | nil => rfl
  | cons request requests ih => exact ih _

theorem run_requests (session : Session) (entry : BatchEntry) :
    (session.run entry.requests).2 = session.goOn (session.dictionary.addEntry entry) := by
  rw [BatchEntry.requests, addEntry]
  cases entry.previous with
  | none => rfl
  | some previous => rfl

/-- Adding entries is answering the requests that they stand for, up to some entry. -/
theorem exists_run_addEntriesFrom (entries : List BatchEntry) (index : Nat) (session : Session) :
    ∃ requests, session.goOn (addEntriesFrom index entries session.dictionary).2 =
      (session.run requests).2 := by
  induction entries generalizing index session with
  | nil => exact ⟨[], rfl⟩
  | cons entry entries ih =>
      have here := run_requests session entry
      rw [addEntriesFrom]
      split
      next => exact ⟨entry.requests, here.symm⟩
      next =>
        obtain ⟨requests, rest⟩ := ih (index + 1) (session.goOn (session.dictionary.addEntry entry))
        refine ⟨entry.requests ++ requests, ?_⟩
        rw [run_append, here]
        exact rest

theorem exists_run_addEntries (session : Session) (entries : List BatchEntry) (start : Nat) :
    ∃ requests, session.perform (.addEntries entries start) = (session.run requests).2 := by
  rw [perform, addEntries]
  split
  next => exact ⟨[], rfl⟩
  next => exact exists_run_addEntriesFrom _ _ _

end Session

/-! ### Flushing -/

/-- What flushing a dictionary with compaction leaves behind says the same, on the same terms. -/
theorem Represents.flushCompacted {dictionary : Dictionary} {vocabulary : Vocabulary}
    (represents : dictionary.Represents vocabulary) (directory : Directory) (name : String) :
    (dictionary.flushCompacted directory name).2.1.Represents vocabulary ∧
      (dictionary.flushCompacted directory name).2.1.terms = dictionary.terms := by
  obtain ⟨answer, after, compacted⟩ := represents.compact
  rw [Dictionary.flushCompacted, compacted.applied]
  cases dictionary.checkUpdatable with
  | error error => exact ⟨represents, rfl⟩
  | ok =>
      cases answer with
      | error error => exact ⟨compacted.represents, compacted.terms⟩
      | ok => exact ⟨compacted.represents, compacted.terms⟩

/-! ### All that can come to be -/

namespace Session

/-- A session says what a vocabulary says.  It is on the same terms as another one, and within their
limits if the other one was. -/
structure Continues (before : Session) (model : Vocabulary.Session) (after : Session)
    (next : Vocabulary.Session) : Prop where
  speaks : after.Speaks next
  terms : after.dictionary.terms = before.dictionary.terms
  within : model.vocabulary.Within before.dictionary.configuration →
    next.vocabulary.Within before.dictionary.configuration

variable {session : Session} {model : Vocabulary.Session}

/-- Another dictionary on the same terms that says the same goes on where the first one stopped. -/
theorem Speaks.goOn (speaks : session.Speaks model) {dictionary : Dictionary}
    (represents : dictionary.Represents model.vocabulary)
    (terms : dictionary.terms = session.dictionary.terms) :
    session.Continues model (session.goOn dictionary) model :=
  ⟨⟨represents, speaks.tokens, speaks.valid⟩, terms, id⟩

/-- A reading without damage leaves everything as it is. -/
theorem Speaks.note {α : Type} (speaks : session.Speaks model) {reading : Reading α}
    (pure : reading.Agree reading) :
    session.Continues model (session.goOn (session.dictionary.note reading).2) model := by
  obtain ⟨answer, same, _⟩ := pure
  rw [same, note_of_undamaged _ rfl]
  exact speaks.goOn speaks.represents rfl

/-- Whatever is done leaves a session that says what some vocabulary says. -/
theorem Speaks.perform (speaks : session.Speaks model) (operation : Operation) :
    ∃ next, session.Continues model (session.perform operation) next := by
  have represents := speaks.represents
  cases operation with
  | request request =>
      obtain ⟨_, next, terms⟩ := speaks.step request
      exact ⟨_, next, terms, fun within => Vocabulary.Session.within_step within _ _⟩
  | addEntries entries start =>
      obtain ⟨requests, same⟩ := exists_run_addEntries session entries start
      obtain ⟨_, next, terms⟩ := speaks.run requests
      rw [same]
      exact ⟨_, next, terms, fun within => Vocabulary.Session.within_run within _⟩
  | completions stem => exact ⟨model, speaks.note (represents.completions represents stem)⟩
  | suggest request shortlist =>
      exact ⟨model, speaks.note (represents.suggest represents request shortlist)⟩
  | predict previous shortlist =>
      exact ⟨model, speaks.note (represents.predict represents previous shortlist)⟩
  | flushCompacted directory name =>
      obtain ⟨after, terms⟩ := represents.flushCompacted directory name
      exact ⟨model, speaks.goOn after terms⟩
  | migrate directory target versionNumber partialOutput =>
      have same := represents.migrate_source directory target versionNumber partialOutput
      rw [Session.perform, same]
      exact ⟨model, speaks.goOn represents rfl⟩

/-- Every healthy session says what some vocabulary says. -/
theorem Healthy.speaks (healthy : session.Healthy) : ∃ model, session.Speaks model := by
  induction healthy with
  | created created => exact ⟨_, (speaks_start created).1⟩
  | opened _ reopened ih =>
      obtain ⟨model, speaks⟩ := ih
      refine ⟨⟨model.vocabulary, [0]⟩, reopened.represents speaks.represents.content, rfl, ?_⟩
      intro token among
      exact Or.inl (List.mem_singleton.mp among)
  | performed _ operation ih =>
      obtain ⟨model, speaks⟩ := ih
      obtain ⟨next, continues⟩ := speaks.perform operation
      exact ⟨next, continues.speaks⟩

theorem Healthy.drive (healthy : session.Healthy) (operations : List Operation) :
    (session.drive operations).Healthy := by
  induction operations generalizing session with
  | nil => exact healthy
  | cons operation operations ih => exact ih (healthy.performed operation)

/-- A session that is never opened again stays on its terms, and within its limits. -/
theorem Speaks.drive (speaks : session.Speaks model)
    (within : model.vocabulary.Within session.dictionary.configuration)
    (operations : List Operation) :
    ∃ next, (session.drive operations).Speaks next ∧
      (session.drive operations).dictionary.terms = session.dictionary.terms ∧
      next.vocabulary.Within session.dictionary.configuration := by
  induction operations generalizing session model with
  | nil => exact ⟨model, speaks, rfl, within⟩
  | cons operation operations ih =>
      obtain ⟨next, continues⟩ := speaks.perform operation
      have limits : (session.perform operation).dictionary.configuration =
          session.dictionary.configuration := congrArg Terms.limits continues.terms
      obtain ⟨last, speaksLast, terms, withinLast⟩ :=
        ih continues.speaks (limits ▸ continues.within within)
      exact ⟨last, speaksLast, terms.trans continues.terms, limits ▸ withinLast⟩

end Session

end Dictionary

end Lexicon

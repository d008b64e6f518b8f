/-
Module: Lexicon.Proofs.Dictionary.Passage
Layer: Proofs
Purpose: A migration of a dictionary without damage to a file that can be written never fails between
  its additions: wherever its destination is to be compacted, it is, and it is opened again.
Imports: Lexicon.Proofs.Dictionary.Remnant, Lexicon.Proofs.Dictionary.Rehearsal
Trusted boundary: none
Main exports: Migration.Excused, Migration.Rehearses, Migration.meets_makeRoom, Migration.meets_run,
  Dictionary.Genuine.migrate_excused
-/
import Lexicon.Proofs.Dictionary.Remnant
import Lexicon.Proofs.Dictionary.Rehearsal

namespace Lexicon

open Vocabulary

namespace Migration

open Dictionary

/-- The failures of a migration to a format that is supported: a word, or a bigram, for which there
is no room, or one more than there may be. -/
inductive Excused (target : MigrationTarget) : MigrationFailure → Prop where
  | unigram {cause : Error} (exhausted : Exhausted target.configuration cause) :
      Excused target { step := .addingUnigram, cause := cause }
  | bigram {cause : Error} (exhausted : Exhausted target.configuration cause) :
      Excused target { step := .addingBigram, cause := cause }

/-- A migration that has brought a vocabulary to its destination, as in a rehearsal, and can write its
file. -/
structure Rehearses (source : Dictionary) (header : Header) (target : MigrationTarget)
    (vocabulary : Vocabulary) (migration : Migration) : Prop where
  source : migration.source = source
  header : migration.destination.header = header
  configuration : migration.destination.configuration = target.configuration
  rehearsed : Rehearsed migration.destination vocabulary
  writable : migration.directory.Writable target.name

/-- A migration from whose file such a destination can be opened. -/
structure Keeps (source : Dictionary) (header : Header) (target : MigrationTarget)
    (vocabulary : Vocabulary) (migration : Migration) : Prop where
  source : migration.source = source
  writable : migration.directory.Writable target.name
  opens : ∃ opened,
    openFile migration.directory target.name 0 0 true target.configuration = .ok opened ∧
      opened.header = header ∧ opened.configuration = target.configuration ∧
      Rehearsed opened vocabulary

section Passing

variable {source : Dictionary} {header : Header} {target : MigrationTarget}
  {vocabulary next : Vocabulary}

/-! ### Between additions -/

/-- The destination is compacted and written, wherever that is to be done. -/
theorem meets_flush (fits : header.Storable) (step : MigrationStep) :
    Meets (Rehearses source header target vocabulary) (inStep step (flush target))
      (fun _ => Keeps source header target vocabulary) fun _ _ => False := by
  refine meets_inStep fun migration answer last rehearses done => ?_
  obtain ⟨after, written, opened, flushed, writable, opens, same, configuration, rehearsed⟩ :=
    rehearses.rehearsed.flushCompacted (rehearses.header ▸ fits) rehearses.writable
  rw [flush, flushed] at done
  cases done
  rw [rehearses.configuration] at opens configuration
  exact ⟨rehearses.source, writable, opened, opens, same.trans rehearses.header, configuration,
    rehearsed⟩

/-- It is opened again from what was written. -/
theorem meets_reopen (step : MigrationStep) :
    Meets (Keeps source header target vocabulary) (inStep step (reopen target))
      (fun _ => Rehearses source header target vocabulary) fun _ _ => False := by
  refine meets_inStep fun migration answer last keeps done => ?_
  obtain ⟨opened, opens, same, configuration, rehearsed⟩ := keeps.opens
  rw [reopen, opens] at done
  cases done
  exact ⟨keeps.source, same, configuration, rehearsed, keeps.writable⟩

/-- Making room never fails. -/
theorem meets_makeRoom (fits : header.Storable) :
    Meets (Rehearses source header target vocabulary) (makeRoom target)
      (fun _ => Rehearses source header target vocabulary) fun _ _ => False := by
  refine .get_bind fun _ _ => .ite (fun _ => ?_) fun _ => .pure fun _ rehearses => rehearses
  refine (meets_flush fits .compacting).bind fun _ => .bind (.modify fun _ keeps => ?_) fun _ =>
    meets_reopen .reopening
  exact ⟨keeps.source, keeps.writable, keeps.opens⟩

/-! ### Additions -/

/-- What proceeds in the destination is brought there, or is refused for a lack of room or for a
limit. -/
theorem meets_change {step : MigrationStep} {change : Mutation Dictionary Unit}
    (excused : ∀ {cause : Error}, Exhausted target.configuration cause →
      Excused target { step := step, cause := cause })
    (proceeds : ∀ {destination : Dictionary}, Rehearsed destination vocabulary →
      destination.header = header → Proceeds change destination next) :
    Meets (Rehearses source header target vocabulary) (inStep step (Migration.change change))
      (fun _ => Rehearses source header target next) fun failure _ => Excused target failure := by
  refine meets_inStep fun migration answer last rehearses done => ?_
  have ends := proceeds rehearses.rehearsed rehearses.header
  rw [Proceeds] at ends
  rw [Migration.change] at done
  generalize change.apply migration.destination = made at ends done
  obtain ⟨result, destination⟩ := made
  cases done
  cases answer with
  | error cause => exact excused (rehearses.configuration ▸ ends)
  | ok =>
      obtain ⟨rehearsed, same, configuration⟩ := ends
      exact ⟨rehearses.source, same.trans rehearses.header,
        configuration.trans rehearses.configuration, rehearsed, rehearses.writable⟩

/-! ### Passes -/

/-- A pass fails only where something that it does for a word fails. -/
theorem meets_pass (represents : source.Represents vocabulary) (fits : header.Storable)
    {add : Word → WordProperty → Stage Unit} (stage : List (Word × Unigram) → Vocabulary)
    (each : ∀ {done rest : List (Word × Unigram)} {word : Word} {unigram : Unigram},
      vocabulary.words = done ++ (word, unigram) :: rest →
        Meets (Rehearses source header target (stage done))
          (add word ⟨word, unigram, vocabulary.bigramsOf word⟩)
          (fun _ => Rehearses source header target (stage (done ++ [(word, unigram)])))
          fun failure _ => Excused target failure) :
    Meets (Rehearses source header target (stage [])) (pass source target add)
      (fun _ => Rehearses source header target (stage vocabulary.words))
      fun failure _ => Excused target failure := by
  have visited : Meets (Rehearses source header target (stage []))
      (source.forWords (visitWord source target add) 0)
      (fun _ => Rehearses source header target (stage vocabulary.words))
      fun failure _ => Excused target failure := by
    rw [represents.forWords_visitWord]
    refine .forM _ (fun done => Rehearses source header target (stage done)) fun split => ?_
    exact (meets_makeRoom fits).of_accepted.bind fun _ => each split
  refine visited.bind fun _ => .bind_get fun migration rehearses => .ite (fun damaged => ?_)
    fun _ => .pure ?_
  · rw [rehearses.source, represents.undamaged] at damaged
    cases damaged
  · rintro _ rfl
    exact rehearses

/-- The pass that adds the words. -/
theorem meets_words (represents : source.Represents vocabulary) (fits : header.Storable) :
    Meets (Rehearses source header target {}) (pass source target addUnigram)
      (fun _ => Rehearses source header target ⟨(vocabulary.converted header.version).words, ∅⟩)
      fun failure _ => Excused target failure := by
  refine meets_pass represents fits
    (fun done => ⟨done.map fun entry => (entry.1, entry.2.kept header.version), ∅⟩) ?_
  intro done rest word unigram split
  refine meets_change .unigram fun {destination} rehearsed same => ?_
  obtain ⟨storableWord, storable, _⟩ := represents.content.storable
    (show (word, unigram) ∈ vocabulary.words by rw [split]; simp)
  have new : word ∉ (done.map fun entry => (entry.1, entry.2.kept header.version)).map (·.1) := by
    have distinct := represents.content.distinct
    rw [spelled, split, List.map_append, List.map_cons, List.nodup_append] at distinct
    rw [spelled_words]
    exact fun member => distinct.2.2 _ member _ List.mem_cons_self rfl
  have proceeds := rehearsed.addUnigram new storableWord storable
  rw [Dictionary.version, same] at proceeds
  rw [List.map_append, List.map_singleton]
  exact proceeds

/-- The pass that adds the bigrams. -/
theorem meets_bigrams (represents : source.Represents vocabulary) (fits : header.Storable)
    {words : List (Word × Unigram)} (spelled : words.map (·.1) = vocabulary.spelled) :
    Meets (Rehearses source header target ⟨words, ∅⟩) (pass source target addBigrams)
      (fun _ => Rehearses source header target
        ⟨words, relations header.version vocabulary.pairs⟩)
      fun failure _ => Excused target failure := by
  rw [pairs_eq_flatMap]
  refine meets_pass represents fits (fun done => ⟨words, relations header.version
    (done.flatMap fun entry =>
      (vocabulary.bigramsOf entry.1).map fun bigram => (entry.1, bigram))⟩) ?_
  intro done rest word unigram split
  have all := vocabulary.pairs_eq_flatMap
  rw [split, List.flatMap_append, List.flatMap_cons] at all
  rw [List.flatMap_append, List.flatMap_singleton]
  generalize done.flatMap (fun entry =>
    (vocabulary.bigramsOf entry.1).map fun bigram => (entry.1, bigram)) = before at all ⊢
  have visits := Meets.forM (vocabulary.bigramsOf word)
    (fun added => Rehearses source header target
      ⟨words, relations header.version (before ++ added.map fun bigram => (word, bigram))⟩)
    (?_ : ∀ {_ _ : List Bigram} {bigram : Bigram}, _ → Meets _
      (inStep .addingBigram (change (Dictionary.addBigram word bigram))) _
      fun failure _ => Excused target failure)
  · rw [List.map_nil, List.append_nil] at visits
    exact visits
  · intro added others bigram among
    refine meets_change .bigram fun {destination} rehearsed same => ?_
    have version : destination.version = header.version := congrArg Header.version same
    rw [among, List.map_append, List.map_cons, List.append_assoc, List.cons_append,
      ← List.append_assoc] at all
    rw [← version] at rehearsed
    have proceeds := rehearsed.addBigram represents.content all spelled
    rw [version] at proceeds
    rw [List.map_append, ← List.append_assoc, List.map_singleton]
    exact proceeds

/-- A migration fails only for a word or a bigram that cannot be added. -/
theorem meets_run (represents : source.Represents vocabulary) (fits : header.Storable) :
    Meets (Rehearses source header target {}) (run source target)
      (fun _ => Keeps source header target (vocabulary.converted header.version))
      fun failure _ => Excused target failure :=
  (meets_words represents fits).bind fun _ =>
    (meets_bigrams represents fits spelled_converted).bind fun _ =>
      (meets_flush fits .writing).of_accepted

end Passing

end Migration

namespace Dictionary

open Migration

/-- A migration of a dictionary that came about in any way, in which no damage is noted and whose
header fits, to a file that can be written, fails for nothing but a format that is not supported, or
a word or a bigram for which there is no room, or one more than there may be.  No compaction on the
way fails, and neither does opening the destination again or writing it in the end. -/
theorem Genuine.migrate_excused {source after : Dictionary} {directory left : Directory}
    {target : MigrationTarget} {versionNumber : Nat} {partialOutput : PartialOutput}
    {failure : MigrationFailure} (genuine : Genuine source) (undamaged : source.damaged = false)
    (fits : source.header.Storable) (writable : directory.Writable target.name)
    (failed : source.migrate directory target versionNumber partialOutput =
      (.error failure, after, left)) :
    (∃ cause, FormatVersion.ofNumber versionNumber = .error cause ∧
        failure = { step := .creating, cause := cause }) ∨ Excused target failure := by
  obtain ⟨vocabulary, represents⟩ := genuine.sturdy.1
  cases supported : FormatVersion.ofNumber versionNumber with
  | error cause =>
      rw [migrate_eq_of_error supported] at failed
      cases failed
      exact .inl ⟨cause, rfl, rfl⟩
  | ok version =>
      right
      have created : create versionNumber source.header.locale source.header.attributes
          target.configuration =
            .ok (empty { source.header with version := version } target.configuration) :=
        create_eq_ok_iff.mpr ⟨version, supported, rfl⟩
      have ends := meets_run ⟨represents, undamaged⟩
        (show Header.Storable { source.header with version := version } from
          ⟨fits.locale, fits.few, fits.key, fits.value⟩)
        { source := source
          destination := empty { source.header with version := version } target.configuration
          directory := directory
          flushed := false } ⟨rfl, rfl, rfl, .empty _ _, writable⟩
      rw [migrate, created] at failed
      dsimp only at failed
      generalize (Migration.run source target).run.run _ = outcome at ends failed
      obtain ⟨answer, migration⟩ := outcome
      cases answer with
      | ok => cases failed
      | error reason =>
          dsimp only at failed
          split at failed
          next =>
            cases failed
            exact ends
          next =>
            cases failed
            exact ends

/-- Where a file takes a single word, the second word is refused; the compaction before it is not. -/
theorem Genuine.migrate_excused_couple :
    ∃ after left, Genuine (reached .standard couple) ∧ (reached .standard couple).damaged = false ∧
      (reached .standard couple).header.Storable ∧ Directory.empty.Writable "m" ∧
      (reached .standard couple).migrate .empty strait 403 .keep =
        (.error { step := .addingUnigram, cause := .limitReached .unigrams 1 }, after, left) ∧
      ((reached .standard couple).flushesOf .empty strait 403).length = 1 ∧
      Excused strait { step := .addingUnigram, cause := .limitReached .unigrams 1 } := by
  obtain ⟨recorded, ran, one⟩ := exists_recordedRun_couple
  have supported : FormatVersion.ofNumber 403 = .ok .historical := rfl
  have failed := migrate_eq_of_ok supported (reached .standard couple) .empty strait .keep
  rw [ran] at failed
  have genuine := genuine_reached .standard couple
  have undamaged : (reached .standard couple).damaged = false := by decide +kernel
  have fits : (reached .standard couple).header.Storable := by
    rw [header_reached]
    exact ⟨by decide, by decide, nofun, nofun⟩
  have writable : Directory.empty.Writable "m" := Directory.exists_replaceFile_empty
    (show Directory.path "m" = ["m"] by decide +kernel)
    (show Directory.path (Directory.provisional "m") = ["m.tmp"] by decide +kernel)
  refine ⟨_, _, genuine, undamaged, fits, writable, failed, ?_, ?_⟩
  · rw [flushesOf_eq_of_ok supported ran, one]
  · exact (genuine.migrate_excused undamaged fits writable failed).resolve_left nofun

end Dictionary

end Lexicon

/-
Module: Lexicon.Proofs.Dictionary.Transfer
Layer: Proofs
Purpose: A migration that succeeds writes the image of all that its source says, converted to the
  other format, however often its destination was compacted and opened again on the way.
Imports: Lexicon.Proofs.Dictionary.Canonical, Lexicon.Proofs.Dictionary.Conversion
Trusted boundary: none
Main exports: Migration.Carries, Migration.ensures_makeRoom, Migration.ensures_run,
  Dictionary.Transferred, Dictionary.Genuine.migrate_transferred
-/
import Lexicon.Proofs.Dictionary.Canonical
import Lexicon.Proofs.Dictionary.Conversion

namespace Lexicon

open Vocabulary

/-- All bigrams of a vocabulary, word by word. -/
theorem Vocabulary.pairs_eq_flatMap (vocabulary : Vocabulary) :
    vocabulary.pairs = vocabulary.words.flatMap fun entry =>
      (vocabulary.bigramsOf entry.1).map fun bigram => (entry.1, bigram) := by
  rw [pairs, spelled, List.flatMap_map]

open Migration in
/-- The words that a migration visits are those of its source, in order, each with all that is known
about it. -/
theorem Dictionary.Represents.forWords_visitWord {source : Dictionary} {vocabulary : Vocabulary}
    (represents : source.Represents vocabulary) (target : MigrationTarget)
    (add : Word → WordProperty → Stage Unit) :
    source.forWords (visitWord source target add) 0 =
      vocabulary.words.forM fun entry => makeRoom target >>= fun _ =>
        add entry.1 ⟨entry.1, entry.2, vocabulary.bigramsOf entry.1⟩ := by
  rw [represents.forWords_eq lift_pure, spelled, List.forM_eq_forM, List.forM_map]
  refine forM_congr fun entry among => ?_
  have known := (unigram?_eq_some represents.content.distinct).mpr among
  rw [visitWord, represents.property, Vocabulary.property, known, Option.map_some, lift_pure,
    pure_bind]

namespace Migration

open Dictionary

/-! ### Steps of a migration -/

section Steps

variable {α : Type} {holds : Migration → Prop} {gives : α → Migration → Prop}

theorem ensures_inStep {step : MigrationStep} {change : Migration → Except Error α × Migration}
    (each : ∀ migration value after, holds migration → change migration = (.ok value, after) →
      gives value after) : Ensures holds (inStep step change) gives := by
  intro migration value after holding done
  have given := each migration
  change inStep step change migration = _ at done
  rw [inStep] at done
  generalize change migration = outcome at given done
  obtain ⟨answer, next⟩ := outcome
  cases answer with
  | error cause => cases done
  | ok found =>
      cases done
      exact given value after holding rfl

end Steps

/-- A migration that has brought a vocabulary to its destination, and left its source as it was. -/
structure Carries (source : Dictionary) (header : Header) (limits : Configuration)
    (vocabulary : Vocabulary) (migration : Migration) : Prop where
  source : migration.source = source
  header : migration.destination.header = header
  configuration : migration.destination.configuration = limits
  represents : migration.destination.Represents vocabulary

/-- A migration that has written a vocabulary to its file. -/
structure Written (source : Dictionary) (header : Header) (name : String) (vocabulary : Vocabulary)
    (migration : Migration) : Prop where
  source : migration.source = source
  image : ∃ image, Imprint header vocabulary image ∧
    migration.directory.mapFile name = .ok image.toByteArray

section Carrying

variable {source : Dictionary} {header : Header} {limits : Configuration}
  {vocabulary next : Vocabulary} {target : MigrationTarget}

/-- Flushing the destination writes all that has been brought there. -/
theorem ensures_flush (step : MigrationStep) :
    Ensures (Carries source header limits vocabulary) (inStep step (flush target)) fun _ =>
      Written source header target.name vocabulary := by
  refine ensures_inStep fun migration _ after carries done => ?_
  rw [flush] at done
  generalize outcome : migration.destination.flushCompacted migration.directory target.name = flushed
    at done
  obtain ⟨answer, destination, directory⟩ := flushed
  cases done
  obtain ⟨image, imprint, mapped⟩ := carries.represents.imprint outcome
  rw [carries.header] at imprint
  exact ⟨carries.source, image, imprint, mapped⟩

/-- Opening the destination from its file brings back what was written. -/
theorem ensures_reopen (step : MigrationStep) :
    Ensures (Written source header target.name vocabulary) (inStep step (reopen target)) fun _ =>
      Carries source header target.configuration vocabulary := by
  refine ensures_inStep fun migration _ after written done => ?_
  obtain ⟨image, imprint, mapped⟩ := written.image
  obtain ⟨opened, found, sameHeader, configuration, _, represents⟩ :=
    imprint.openFile mapped true target.configuration
  rw [reopen, found] at done
  cases done
  exact ⟨written.source, sameHeader, configuration, represents⟩

/-- Making room loses nothing of what was brought to the destination. -/
theorem ensures_makeRoom :
    Ensures (Carries source header target.configuration vocabulary) (makeRoom target) fun _ =>
      Carries source header target.configuration vocabulary := by
  refine .bind_get fun migration carries => .ite (fun _ => ?_) fun _ => ?_
  · have flushed : Ensures (· = migration) (inStep .compacting (flush target)) fun _ =>
        Written source header target.name vocabulary :=
      fun state value after same => ensures_flush .compacting state value after (same ▸ carries)
    refine flushed.bind fun _ => Ensures.bind (.modify fun _ written => ?_) fun _ =>
      ensures_reopen .reopening
    exact ⟨written.source, written.image⟩
  · refine .pure ?_
    rintro _ rfl
    exact carries

/-- A change that is made to the destination is made to what was brought there. -/
theorem ensures_change {step : MigrationStep} {change : Mutation Dictionary Unit}
    (decided : ∀ {destination : Dictionary}, destination.Represents vocabulary →
      destination.header = header →
        ∃ accepted room, Decides accepted change destination next room) :
    Ensures (Carries source header limits vocabulary) (inStep step (Migration.change change))
      fun _ => Carries source header limits next := by
  refine ensures_inStep fun migration _ after carries done => ?_
  obtain ⟨accepted, room, decides⟩ := decided carries.represents carries.header
  rw [Migration.change] at done
  generalize outcome : change.apply migration.destination = made at done
  obtain ⟨answer, destination⟩ := made
  cases done
  have changed := (decides.made outcome).2
  exact ⟨carries.source, changed.header.trans carries.header,
    changed.configuration.trans carries.configuration, changed.represents⟩

/-! ### Passes -/

/-- A pass does something for each word of the source, in order, with all that is known about it. -/
theorem ensures_pass (represents : source.Represents vocabulary)
    {add : Word → WordProperty → Stage Unit}
    (stage : List (Word × Unigram) → Migration → Prop)
    (room : ∀ done, Ensures (stage done) (makeRoom target) fun _ => stage done)
    (each : ∀ {done rest : List (Word × Unigram)} {word : Word} {unigram : Unigram},
      vocabulary.words = done ++ (word, unigram) :: rest →
        Ensures (stage done) (add word ⟨word, unigram, vocabulary.bigramsOf word⟩) fun _ =>
          stage (done ++ [(word, unigram)])) :
    Ensures (stage []) (pass source target add) fun _ => stage vocabulary.words := by
  have visited : Ensures (stage []) (source.forWords (visitWord source target add) 0)
      fun _ => stage vocabulary.words := by
    rw [represents.forWords_visitWord]
    exact .forM _ stage fun split => (room _).bind fun _ => each split
  refine visited.bind fun _ => .bind_get fun migration holding =>
    .ite (fun _ => .throw _) fun _ => .pure ?_
  rintro _ rfl
  exact holding

/-- The pass that adds the words. -/
theorem ensures_words (represents : source.Represents vocabulary) :
    Ensures (Carries source header target.configuration {}) (pass source target addUnigram)
      fun _ => Carries source header target.configuration
        ⟨(vocabulary.converted header.version).words, ∅⟩ := by
  refine ensures_pass represents (fun done => Carries source header target.configuration
    ⟨done.map fun entry => (entry.1, entry.2.kept header.version), ∅⟩)
    (fun _ => ensures_makeRoom) ?_
  intro done rest word unigram split
  refine ensures_change fun known sameHeader => ?_
  have decided := known.addUnigram word unigram
  have new : word ∉ (Vocabulary.mk
      (done.map fun entry => (entry.1, entry.2.kept header.version)) ∅).spelled := by
    have distinct := represents.content.distinct
    rw [spelled, split, List.map_append, List.map_cons, List.nodup_append] at distinct
    rw [spelled, spelled_words]
    exact fun member => distinct.2.2 _ member _ List.mem_cons_self rfl
  rw [store, if_neg new, Dictionary.version, sameHeader] at decided
  rw [List.map_append, List.map_singleton]
  exact ⟨_, _, decided⟩

/-- The pass that adds the bigrams. -/
theorem ensures_bigrams (represents : source.Represents vocabulary)
    (words : List (Word × Unigram)) :
    Ensures (Carries source header target.configuration ⟨words, ∅⟩) (pass source target addBigrams)
      fun _ => Carries source header target.configuration
        ⟨words, relations header.version vocabulary.pairs⟩ := by
  rw [pairs_eq_flatMap]
  refine ensures_pass represents (fun done => Carries source header target.configuration
    ⟨words, relations header.version (done.flatMap fun entry =>
      (vocabulary.bigramsOf entry.1).map fun bigram => (entry.1, bigram))⟩)
    (fun _ => ensures_makeRoom) ?_
  intro done rest word unigram _
  generalize earlier : done.flatMap (fun entry =>
    (vocabulary.bigramsOf entry.1).map fun bigram => (entry.1, bigram)) = before
  rw [List.flatMap_append, earlier, List.flatMap_singleton]
  have visits := Ensures.forM (vocabulary.bigramsOf word)
    (fun added => Carries source header target.configuration
      ⟨words, relations header.version (before ++ added.map fun bigram => (word, bigram))⟩)
    (?_ : ∀ {_ _ : List Bigram} {bigram : Bigram}, _ → Ensures _
      (inStep .addingBigram (change (Dictionary.addBigram word bigram))) _)
  · rw [List.map_nil, List.append_nil] at visits
    exact visits
  · intro added rest bigram _
    refine ensures_change fun known sameHeader => ?_
    have decided := known.addBigram word bigram
    rw [relate, Dictionary.version, sameHeader,
      ← show ends (word, bigram) = (word, bigram.target) from rfl,
      ← show (word, bigram).2 = bigram from rfl, ← relations_concat] at decided
    rw [List.map_append, ← List.append_assoc, List.map_singleton]
    exact ⟨_, _, decided⟩

/-- A migration that succeeds writes what its source says, converted to the format of the
destination. -/
theorem ensures_run (represents : source.Represents vocabulary) :
    Ensures (Carries source header target.configuration {}) (run source target) fun _ =>
      Written source header target.name (vocabulary.converted header.version) :=
  (ensures_words represents).bind fun _ => (ensures_bigrams represents _).bind fun _ =>
    ensures_flush .writing

/-- A pass through a source in which damage is noted fails. -/
theorem ensures_pass_damaged {add : Word → WordProperty → Stage Unit}
    (keeps : ∀ word property,
      Preserves (OfSource fun source => source.damaged = true) (add word property)) :
    Ensures (OfSource fun source => source.damaged = true) (pass source target add)
      fun _ _ => False := by
  have kept : Preserves (OfSource fun source => source.damaged = true)
      (source.forWords (visitWord source target add) 0) :=
    preserves_words (fun damaged _ reading => damaged_note damaged reading) source target keeps
  refine (Ensures.of_preserves kept).bind fun _ => .bind_get fun migration damaged =>
    .ite (fun _ => .throw _) fun sound => ?_
  exact absurd damaged sound

theorem ensures_run_damaged :
    Ensures (OfSource fun source => source.damaged = true) (run source target) fun _ _ => False :=
  (ensures_pass_damaged preserves_addUnigram).bind fun _ _ _ _ failed => failed.elim

end Carrying

end Migration

namespace Dictionary

open Migration

/-! ### Migrations that succeed -/

/-- What a dictionary has in common with the one from which it was migrated to a format: the texts of
its header, its words in their order, and all that is known about each, but for histories, which only
pass from one format with history to another one. -/
structure Transferred (source : Dictionary) (version : FormatVersion) (opened : Dictionary) :
    Prop where
  header : opened.header = { source.header with version := version }
  undamaged : opened.damaged = false
  walk : opened.walk 0 = source.walk 0
  property : ∀ word, opened.property word =
    Option.map (WordProperty.carried source.version version) <$> source.property word

/-- The run of a migration that succeeds. -/
theorem exists_run_of_migrate {source after : Dictionary} {directory written : Directory}
    {target : MigrationTarget} {versionNumber : Nat} {partialOutput : PartialOutput}
    (done : source.migrate directory target versionNumber partialOutput = (.ok (), after, written)) :
    ∃ version migration, FormatVersion.ofNumber versionNumber = .ok version ∧
      (Migration.run source target).run.run
          { source := source
            destination := empty { source.header with version := version } target.configuration
            directory := directory
            flushed := false } = (.ok (), migration) ∧
        after = migration.source ∧ written = migration.directory := by
  rw [migrate] at done
  split at done
  next => cases done
  next destination created =>
    obtain ⟨version, supported, rfl⟩ := create_eq_ok_iff.mp created
    dsimp only at done
    split at done
    next migration ran =>
      cases done
      exact ⟨version, migration, supported, ran, rfl, rfl⟩
    next => split at done <;> cases done

/-- A migration that succeeds leaves its source as it was, in which no damage is noted, and writes the
image of what the source says. -/
theorem exists_imprint_of_migrate {source after : Dictionary} {vocabulary : Vocabulary}
    {directory written : Directory} {target : MigrationTarget} {versionNumber : Nat}
    {partialOutput : PartialOutput}
    (represents : source.content.Represents source.version vocabulary)
    (done : source.migrate directory target versionNumber partialOutput = (.ok (), after, written)) :
    after = source ∧ source.Represents vocabulary ∧
      ∃ version image, FormatVersion.ofNumber versionNumber = .ok version ∧
        Imprint { source.header with version := version } (vocabulary.converted version) image ∧
        written.mapFile target.name = .ok image.toByteArray := by
  obtain ⟨version, migration, supported, ran, rfl, rfl⟩ := exists_run_of_migrate done
  have undamaged : source.damaged = false := by
    cases damaged : source.damaged with
    | false => rfl
    | true => exact (ensures_run_damaged _ () migration (by exact damaged) ran).elim
  have known : source.Represents vocabulary := ⟨represents, undamaged⟩
  have start := represents_empty { source.header with version := version } target.configuration
  have result := ensures_run known _ _ _ ⟨rfl, rfl, rfl, start⟩ ran
  obtain ⟨image, imprint, mapped⟩ := result.image
  exact ⟨result.source, known, version, image, supported, imprint, mapped⟩

/-- What is opened from the image of a converted vocabulary says what the source says. -/
theorem Represents.transferred {source opened : Dictionary} {vocabulary : Vocabulary}
    {version : FormatVersion} (represents : source.Represents vocabulary)
    (header : opened.header = { source.header with version := version })
    (further : opened.Represents (vocabulary.converted version)) :
    Transferred source version opened := by
  refine ⟨header, further.undamaged, ?_, fun word => ?_⟩
  · exact (represents.walk_of_spelled further spelled_converted (Session.walkable (.inl rfl))).eq
  · rw [represents.property, further.property, represents.content.property_converted, map_pure]

/-- A migration that succeeds is exact.  It leaves its source as it was.  Its file opens to all that
the source says, in the other format.  The bytes of the file are the same whatever the limits of the
destination were, and so however often it was compacted and opened again on the way; and in the
format of the source they are those that flushing the source with compaction writes. -/
theorem Genuine.migrate_transferred {source after : Dictionary} {directory written : Directory}
    {target : MigrationTarget} {versionNumber : Nat} {partialOutput : PartialOutput}
    (genuine : Genuine source)
    (done : source.migrate directory target versionNumber partialOutput = (.ok (), after, written)) :
    after = source ∧
      ∃ version image, FormatVersion.ofNumber versionNumber = .ok version ∧
        written.mapFile target.name = .ok image ∧
        (∀ updatable limits, ∃ opened,
          openFile written target.name 0 0 updatable limits = .ok opened ∧
            Transferred source version opened) ∧
        (∀ elsewhere other remains left result,
          source.migrate elsewhere other versionNumber remains = (.ok (), left, result) →
            result.mapFile other.name = .ok image) ∧
        (version = source.version → ∀ elsewhere name left result,
          source.flushCompacted elsewhere name = (.ok (), left, result) →
            result.mapFile name = .ok image) := by
  obtain ⟨vocabulary, represents⟩ := genuine.sturdy.1
  obtain ⟨same, known, version, image, supported, imprint, mapped⟩ :=
    exists_imprint_of_migrate represents done
  refine ⟨same, version, image.toByteArray, supported, mapped, ?_, ?_, ?_⟩
  · intro updatable limits
    obtain ⟨opened, found, header, _, _, further⟩ := imprint.openFile mapped updatable limits
    exact ⟨opened, found, known.transferred header further⟩
  · intro elsewhere other remains left result doneOther
    obtain ⟨_, _, again, imageOther, supportedOther, imprintOther, mappedOther⟩ :=
      exists_imprint_of_migrate represents doneOther
    cases supported.symm.trans supportedOther
    rw [mappedOther, imprint.unique imprintOther]
  · rintro rfl elsewhere name left result flushed
    obtain ⟨imageOther, imprintOther, mappedOther⟩ := known.imprint flushed
    have all : vocabulary.converted source.version = vocabulary := represents.converted_self
    rw [all] at imprint
    rw [mappedOther, imprint.unique imprintOther]

/-! ### A migration -/

/-- A migration succeeds if its passes do, and its destination can be flushed. -/
theorem migrate_of_passes {source : Dictionary} {directory : Directory} {target : MigrationTarget}
    {versionNumber : Nat} {partialOutput : PartialOutput} {destination : Dictionary}
    {migration : Migration} {last : Dictionary} {written : Directory}
    (created : create versionNumber source.header.locale source.header.attributes
      target.configuration = .ok destination)
    (passed : (Migration.pass source target Migration.addUnigram >>= fun _ =>
      Migration.pass source target Migration.addBigrams).run.run
        { source, destination, directory, flushed := false } = (.ok (), migration))
    (flushed : migration.destination.flushCompacted migration.directory target.name =
      (.ok (), last, written)) :
    source.migrate directory target versionNumber partialOutput =
      (.ok (), migration.source, written) := by
  have ran : (Migration.run source target).run.run
      { source, destination, directory, flushed := false } =
        (.ok (), { migration with destination := last, directory := written }) := by
    rw [Migration.run, ← bind_assoc, ExceptT.run_bind, StateT.run_bind, passed]
    show inStep .writing (Migration.flush target) migration = _
    rw [inStep, Migration.flush, flushed]
  rw [migrate, created]
  dsimp only
  rw [ran]

/-- Two words and a bigram, of which it is known when they were typed. -/
def remembering : List Operation :=
  [.request (.addUnigram [97] { probability := 7, history := .typed 5 }),
    .request (.addUnigram [98] { probability := 5 }),
    .request (.addBigram [97] { target := [98], probability := 3, history := .typed 6 })]

/-- The dictionary that comes of that. -/
def remembered : Dictionary :=
  ((Session.start (empty ⟨.historical, "en", default⟩ .standard)).drive remembering).dictionary

theorem exists_migrate_remembered :
    ∃ after written,
      remembered.migrate .empty ⟨"m", .standard⟩ 4 .remove = (.ok (), after, written) := by
  obtain ⟨migration, passed, vacant, updatable, kept, compacted, encoded⟩ : ∃ migration,
      (Migration.pass remembered ⟨"m", .standard⟩ Migration.addUnigram >>= fun _ =>
        Migration.pass remembered ⟨"m", .standard⟩ Migration.addBigrams).run.run
          { source := remembered
            destination := empty ⟨.plain, "en", default⟩ .standard
            directory := .empty
            flushed := false } = (.ok (), migration) ∧
      migration.directory.items.length = 0 ∧ migration.destination.updatable = true ∧
      (compact.apply migration.destination).2.updatable = true ∧
      (compact.apply migration.destination).1 = .ok () ∧
      (Image.encode (compact.apply migration.destination).2.header
        (compact.apply migration.destination).2.content).toOption.isSome = true := by
    refine ⟨_, Prod.ext (by decide +kernel) rfl, ?_⟩
    decide +kernel
  have untouched : migration.directory = .empty :=
    congrArg Directory.mk (List.eq_nil_of_length_eq_zero vacant)
  obtain ⟨written, flushed⟩ := exists_flushCompacted_empty (show Directory.path "m" = ["m"] by
    decide +kernel) (show Directory.path (Directory.provisional "m") = ["m.tmp"] by decide +kernel)
    updatable kept compacted encoded
  rw [← untouched] at flushed
  exact ⟨_, written, migrate_of_passes rfl passed flushed⟩

/-- A dictionary with history is migrated to the format without, in an empty directory. -/
theorem Genuine.migrate_transferred_remembered :
    ∃ after written, Genuine remembered ∧
      remembered.migrate .empty ⟨"m", .standard⟩ 4 .remove = (.ok (), after, written) ∧
      after = remembered ∧
      remembered.property [97] = pure (some
        { word := [97]
          unigram := { probability := 7, history := .typed 5 }
          bigrams := [{ target := [98], probability := 3, history := .typed 6 }] }) ∧
      ∃ opened, openFile written "m" 0 0 true .standard = .ok opened ∧
        Transferred remembered .plain opened ∧
        opened.property [97] = pure (some
          { word := [97]
            unigram := { probability := 7 }
            bigrams := [{ target := [98], probability := 3 }] }) := by
  have genuine : Genuine remembered :=
    (Genuine.created (show create 403 "en" default .standard = .ok _ from rfl)).drive remembering
  have known : remembered.property [97] = pure (some
      { word := [97]
        unigram := { probability := 7, history := .typed 5 }
        bigrams := [{ target := [98], probability := 3, history := .typed 6 }] }) := by
    decide +kernel
  obtain ⟨after, written, done⟩ := exists_migrate_remembered
  obtain ⟨same, version, image, supported, _, opens, _⟩ := genuine.migrate_transferred done
  cases supported
  obtain ⟨opened, found, transferred⟩ := opens true .standard
  refine ⟨after, written, genuine, done, same, known, opened, found, transferred, ?_⟩
  rw [transferred.property, known]
  rfl

end Dictionary

end Lexicon

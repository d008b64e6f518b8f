/-
Module: Lexicon.Proofs.Dictionary.Upkeep
Layer: Proofs
Purpose: What holds of empty contents and is kept by adding and removing is kept by all that can be
  done with a dictionary; in particular what is kept by the operations on its forests.
Imports: Lexicon.Proofs.Dictionary.Lifetime, Lexicon.Proofs.Forest.Storability
Trusted boundary: none
Main exports: Forest.Lasting, Forest.lasting_coherent, Forest.lasting_storable, Dictionary.Kept,
  Dictionary.Lasting, Dictionary.Lasting.perform, Dictionary.Sustains, Dictionary.lasting_sustains
-/
import Lexicon.Proofs.Dictionary.Lifetime
import Lexicon.Proofs.Forest.Storability

namespace Lexicon

/-! ### Forests -/

namespace Forest

/-- A property of a forest and the tables in it that lasts whatever is done with them. -/
structure Lasting (holds : Forest → Finset Table → Prop) : Prop where
  new : holds new {root}
  rooted : ∀ {forest : Forest} {tables : Finset Table}, holds forest tables → root ∈ tables
  nested : ∀ {forest : Forest} {tables : Finset Table} {table nested : Table} {key : Int32},
    holds forest tables → table ∈ tables → forest.nested? table key = some nested → nested ∈ tables
  put : ∀ {forest : Forest} {tables : Finset Table} {table : Table}, holds forest tables →
    table ∈ tables → ∀ key value, holds (forest.put table key value).2 tables
  erase : ∀ {forest : Forest} {tables : Finset Table} {table : Table}, holds forest tables →
    table ∈ tables → ∀ key, holds (forest.erase table key).2 tables
  createNested : ∀ {forest : Forest} {tables : Finset Table} {table : Table}, holds forest tables →
    table ∈ tables → ∀ key, holds (forest.createNested? table key).2
      (match (forest.createNested? table key).1 with
        | none => tables
        | some fresh => insert fresh tables)

/-- The tables of a forest stay coherent. -/
theorem lasting_coherent (loose : Prop) : Lasting (Coherent loose) where
  new := coherent_new loose
  rooted coherent := coherent.rooted
  nested coherent member := coherent.nested_mem member
  put coherent member key value := by
    by_cases wide : maxValue < value
    · rw [put_of_gt wide]
      exact coherent
    · obtain ⟨answer, after, outcome, _, stored | full | ⟨_, _, same⟩⟩ :=
        put_ends coherent member key (Nat.le_of_not_lt wide)
      · rw [outcome]
        exact stored.2.1.sound
      · rw [outcome]
        exact full.2.2.1.sound
      · rw [outcome, same]
        exact coherent
  erase coherent member key := by
    obtain ⟨after, outcome, amended, _⟩ := erase_spec coherent member key
    rw [outcome]
    exact amended.sound
  createNested {forest _ table} coherent member key := by
    have spec := createNested_spec coherent member key
    match has : forest.under? table key, spec with
    | none, spec =>
        rw [spec]
        exact coherent
    | some (value, some nested), spec =>
        rw [spec]
        simp only [Finset.insert_eq_of_mem (coherent.linked member has).1]
        exact coherent
    | some (value, none), .inl ⟨refused, _⟩ =>
        rw [refused]
        exact coherent
    | some (value, none), .inr ⟨fresh, after, created, founded⟩ =>
        rw [created]
        exact founded.sound

/-- Forests stay such that they can be stored. -/
theorem lasting_storable : Lasting Storable where
  new := storable_new
  rooted storable := storable.sound.rooted
  nested storable member := storable.sound.nested_mem member
  put := Storable.put
  erase := Storable.erase
  createNested := Storable.createNested

end Forest

namespace Dictionary

section Filing

open Forest (Lasting)

variable {holds : Forest → Finset Table → Prop} {forest : Forest} {tables : Finset Table}
  {table : Table}

/-- Entering a table keeps what lasts, if what follows does so for the table that is entered. -/
theorem lasting_entering (lasting : Lasting holds) (here : holds forest tables)
    (member : table ∈ tables) (key : Int32) {rest : Table → Mutation Forest Unit}
    (further : ∀ {forest : Forest} {tables : Finset Table} {table : Table}, holds forest tables →
      table ∈ tables → ∃ others, holds ((rest table).apply forest).2 others) :
    ∃ others, holds ((entering table key rest).apply forest).2 others := by
  have nested : ∀ {forest : Forest}, holds forest tables → ∃ others,
      holds ((nest table key >>= rest).apply forest).2 others := by
    intro forest here
    have created := lasting.createNested here member key
    rw [Mutation.apply_bind, nest, Mutation.apply_ofChange]
    generalize forest.createNested? table key = outcome at created
    obtain ⟨answer, after⟩ := outcome
    cases answer with
    | none => exact ⟨_, created⟩
    | some nested => exact further created (Finset.mem_insert_self _ _)
  rw [entering_eq]
  split
  next => exact nested here
  next =>
    have stored := lasting.put here member key 0
    rw [Mutation.apply_bind, Mutation.apply_ofChange]
    generalize forest.put table key 0 = outcome at stored
    obtain ⟨answer, after⟩ := outcome
    cases answer with
    | error error => exact ⟨_, stored⟩
    | ok => exact nested stored

theorem lasting_fileWord (lasting : Lasting holds) (terminal : Nat) (word : Word) :
    ∀ {forest : Forest} {tables : Finset Table} {table : Table}, holds forest tables →
      table ∈ tables → ∃ others, holds ((fileWord terminal table word).apply forest).2 others := by
  induction word with
  | nil => exact fun here _ => ⟨_, here⟩
  | cons codePoint rest ih =>
      intro forest tables table here member
      cases rest with
      | nil => exact ⟨_, lasting.put here member codePoint (terminal + 1)⟩
      | cons next rest => exact lasting_entering lasting here member codePoint ih

theorem lasting_fileBigram (lasting : Lasting holds) (here : holds forest tables)
    (source target record : Nat) :
    ∃ others, holds ((fileBigram source target record).apply forest).2 others :=
  lasting_entering lasting here (lasting.rooted here) (wordKey source) fun here member =>
    ⟨_, lasting.put here member (wordKey target) record⟩

end Filing

/-! ### Contents -/

/-- Something holds of the header and the content of a dictionary with a given header. -/
structure Kept (holds : Header → Content → Prop) (header : Header) (dictionary : Dictionary) :
    Prop where
  headed : dictionary.header = header
  content : holds header dictionary.content

/-- A property of contents that adding and removing keeps. -/
structure Lasting (holds : Header → Content → Prop) : Prop where
  empty : ∀ header, holds header {}
  addUnigram : ∀ header word unigram, Preserves (Kept holds header) (addUnigram word unigram)
  addBigram : ∀ header first bigram, Preserves (Kept holds header) (addBigram first bigram)
  removeBigram : ∀ header first second, Preserves (Kept holds header) (removeBigram first second)

section Content

variable {holds : Header → Content → Prop} {header : Header}

/-- Noting damage changes neither header nor content. -/
theorem Kept.noted {before after : Dictionary} (kept : Kept holds header before)
    (noted : Noted before after) : Kept holds header after :=
  ⟨noted.header.trans kept.headed, noted.content ▸ kept.content⟩

theorem preserves_reading {α : Type} (reading : Reading α) :
    Preserves (Kept holds header) (liftM reading : Mutation Dictionary α) :=
  fun dictionary kept => kept.noted ((Noted.refl dictionary).note reading)

theorem preserves_onContent {change : Content → Content}
    (keeps : ∀ content, holds header content → holds header (change content)) :
    Preserves (Kept holds header) (onContent change) :=
  .modify fun _ kept => ⟨kept.headed, keeps _ kept.content⟩

theorem preserves_supersede (bytes : Nat) : Preserves (Kept holds header) (supersede bytes) :=
  .modify fun _ kept => ⟨kept.headed, kept.content⟩

/-- Looking for a word keeps what readings keep. -/
theorem preserves_require {holds : Dictionary → Prop}
    (reads : ∀ reading : Reading (Option Nat),
      Preserves holds (liftM reading : Mutation Dictionary (Option Nat))) (word : Word) :
    Preserves holds (require word) := by
  refine .bind .get fun dictionary => .bind (reads _) fun found => ?_
  cases found with
  | none => exact .throw _
  | some offset => exact .pure offset

/-! ### Replays -/

section Replays

variable {holds : Compaction → Prop} (dictionary : Dictionary)
  (reads : ∀ {α : Type} (reading : Reading α),
    Preserves holds (liftM reading : Mutation Compaction α))

include reads

theorem preserves_replayUnigram
    (adds : ∀ word unigram, Preserves holds (Compaction.onFresh (addUnigram word unigram)))
    (word : Word) : Preserves holds (dictionary.replayUnigram word) := by
  refine .bind (reads _) fun property => ?_
  cases property with
  | none => exact .throw _
  | some property => exact adds word property.unigram

theorem preserves_replayBigrams
    (adds : ∀ word bigram, Preserves holds (Compaction.onFresh (addBigram word bigram)))
    (word : Word) : Preserves holds (dictionary.replayBigrams word) := by
  refine .bind (reads _) fun found => ?_
  cases found with
  | none => exact .throw _
  | some offset => exact .bind (reads _) fun bigrams => .forM fun bigram => adds word bigram

/-- What readings keep, and all that is added to the dictionary that is filled, a replay keeps. -/
theorem preserves_replay
    (addsWord : ∀ word unigram, Preserves holds (Compaction.onFresh (addUnigram word unigram)))
    (addsPair : ∀ word bigram, Preserves holds (Compaction.onFresh (addBigram word bigram))) :
    Preserves holds dictionary.replay :=
  .bind (.forWords dictionary reads (preserves_replayUnigram dictionary reads addsWord) 0) fun _ =>
    .forWords dictionary reads (preserves_replayBigrams dictionary reads addsPair) 0

end Replays

namespace Lasting

variable (lasting : Lasting holds)

include lasting

/-! ### Requests and batches -/

theorem step {session : Session} (kept : Kept holds header session.dictionary) (request : Request) :
    Kept holds header (session.step request).2.dictionary := by
  cases request with
  | addUnigram word unigram => exact lasting.addUnigram header word unigram _ kept
  | addBigram first bigram => exact lasting.addBigram header first bigram _ kept
  | removeBigram first second => exact lasting.removeBigram header first second _ kept
  | probability | bigramProbability | property | next => exact kept.noted ((Noted.refl _).note _)
  | query => exact kept

theorem run {session : Session} (kept : Kept holds header session.dictionary)
    (requests : List Request) : Kept holds header (session.run requests).2.dictionary := by
  induction requests generalizing session with
  | nil => exact kept
  | cons request requests ih => exact ih (lasting.step kept request)

/-! ### Compaction -/

/-- A dictionary that is filled in the course of a replay keeps what lasts, and the one that is read
has at most damage noted in it. -/
theorem replay (dictionary : Dictionary) :
    Preserves (fun compaction : Compaction =>
      Noted dictionary compaction.source ∧ Kept holds header compaction.fresh) dictionary.replay :=
  preserves_replay dictionary (fun reading _ here => ⟨here.1.note reading, here.2⟩)
    (fun word unigram =>
      .onPart fun _ here => ⟨here.1, lasting.addUnigram header word unigram _ here.2⟩)
    fun word bigram =>
      .onPart fun _ here => ⟨here.1, lasting.addBigram header word bigram _ here.2⟩

theorem compact : Preserves (Kept holds header) compact := by
  intro dictionary kept
  show Kept holds header (Dictionary.compact.apply dictionary).2
  rw [Dictionary.compact, Mutation.apply_ofChange]
  split
  next => exact kept
  next =>
    have fresh : Kept holds header (Dictionary.empty dictionary.header dictionary.configuration) :=
      ⟨kept.headed, lasting.empty header⟩
    have replayed := lasting.replay dictionary
      { source := dictionary, fresh := .empty dictionary.header dictionary.configuration }
      ⟨.refl dictionary, fresh⟩
    change Noted dictionary (dictionary.replay.apply _).2.source ∧
      Kept holds header (dictionary.replay.apply _).2.fresh at replayed
    dsimp only
    generalize dictionary.replay.apply _ = outcome at replayed
    obtain ⟨answer, compaction⟩ := outcome
    obtain ⟨noted, filled⟩ := replayed
    cases answer with
    | error error => exact kept.noted noted
    | ok =>
        dsimp only
        split
        next => exact kept.noted noted
        next => exact ⟨noted.header.trans kept.headed, filled.content⟩

theorem flushCompacted {dictionary : Dictionary} (kept : Kept holds header dictionary)
    (directory : Directory) (name : String) :
    Kept holds header (dictionary.flushCompacted directory name).2.1 := by
  have compacted := lasting.compact dictionary kept
  change Kept holds header (Dictionary.compact.apply dictionary).2 at compacted
  rw [Dictionary.flushCompacted]
  cases dictionary.checkUpdatable with
  | error error => exact kept
  | ok =>
      dsimp only
      generalize Dictionary.compact.apply dictionary = outcome at compacted
      obtain ⟨answer, after⟩ := outcome
      cases answer with
      | error error => exact compacted
      | ok => exact compacted

/-! ### All operations -/

/-- Whatever is done with a dictionary keeps what lasts. -/
theorem perform {session : Session} (kept : Kept holds header session.dictionary)
    (operation : Operation) : Kept holds header (session.perform operation).dictionary := by
  cases operation with
  | request request => exact lasting.step kept request
  | addEntries entries start =>
      obtain ⟨requests, same⟩ := Session.exists_run_addEntries session entries start
      rw [same]
      exact lasting.run kept requests
  | completions | suggest | predict => exact kept.noted ((Noted.refl _).note _)
  | flushCompacted directory name => exact lasting.flushCompacted kept directory name
  | migrate directory target versionNumber partialOutput =>
      exact kept.noted (migrate_noted _ directory target versionNumber partialOutput)

theorem drive {session : Session} (kept : Kept holds header session.dictionary)
    (operations : List Operation) : Kept holds header (session.drive operations).dictionary := by
  induction operations generalizing session with
  | nil => exact kept
  | cons operation operations ih => exact ih (lasting.perform kept operation)

end Lasting

end Content

/-! ### Contents with forests of a kind -/

section Forests

variable {holds : Forest → Finset Table → Prop} {header : Header}

/-- Something holds of both forests of a content, with some tables in them. -/
structure Sustains (holds : Forest → Finset Table → Prop) (content : Content) : Prop where
  words : ∃ tables, holds content.words tables
  followers : ∃ tables, holds content.followers tables

/-- A dictionary of which that holds, with a given header. -/
abbrev Sustained (holds : Forest → Finset Table → Prop) (header : Header) : Dictionary → Prop :=
  Kept (fun _ content => Sustains holds content) header

theorem preserves_replaceUnigram (offset : Nat) (record : List UInt8) :
    Preserves (Sustained holds header) (replaceUnigram offset record) := by
  refine .bind .get fun dictionary => .bind (preserves_reading _) fun terminal => ?_
  cases terminal with
  | none => exact .throw _
  | some terminal =>
      refine .bind (.check _) fun _ => .bind (preserves_reading _) fun old => ?_
      exact .bind (preserves_onContent fun _ here => ⟨here.words, here.followers⟩) fun _ =>
        preserves_supersede _

theorem preserves_insertUnigram (lasting : Forest.Lasting holds) (word : Word)
    (record : List UInt8) : Preserves (Sustained holds header) (insertUnigram word record) := by
  refine .bind .get fun dictionary => .bind (.require _ _) fun _ => .bind (.check _) fun _ => ?_
  refine .bind (.onPart fun _ kept => ?_) fun _ =>
    preserves_onContent fun _ here => ⟨here.words, here.followers⟩
  obtain ⟨tables, here⟩ := kept.content.words
  exact ⟨kept.headed, lasting_fileWord lasting _ word here (lasting.rooted here),
    kept.content.followers⟩

theorem preserves_storeBigram (lasting : Forest.Lasting holds) (source target : Nat)
    (record : List UInt8) : Preserves (Sustained holds header) (storeBigram source target record) := by
  have append : Preserves (Sustained holds header) (onContent fun content =>
      { content with records := Buffer.append content.records record }) :=
    preserves_onContent fun _ here => ⟨here.words, here.followers⟩
  have file : ∀ offset, Preserves (Sustained holds header)
      (onFollowers (fileBigram source target offset)) := by
    refine fun offset => .onPart fun _ kept => ?_
    obtain ⟨tables, here⟩ := kept.content.followers
    exact ⟨kept.headed, kept.content.words, lasting_fileBigram lasting here source target offset⟩
  refine .bind .get fun dictionary => ?_
  dsimp only
  split
  next =>
    exact .bind (.check _) fun _ => .bind (file _) fun _ => .bind append fun _ =>
      preserves_supersede _
  next =>
    refine .bind (.require _ _) fun _ => .bind (.check _) fun _ => .bind (file _) fun _ =>
      .bind append fun _ => ?_
    exact preserves_onContent fun _ here => ⟨here.words, here.followers⟩

theorem preserves_dropBigram (lasting : Forest.Lasting holds) (source target : Nat) :
    Preserves (Sustained holds header) (dropBigram source target) := by
  refine .bind_get fun dictionary kept => ?_
  cases has : dictionary.followerTable source with
  | none => exact kept
  | some table =>
      obtain ⟨tables, here⟩ := kept.content.followers
      have member := lasting.nested here (lasting.rooted here) has
      have erased : Sustained holds header { dictionary with content :=
          { dictionary.content with followers :=
            (dictionary.content.followers.erase table (wordKey target)).2 } } :=
        ⟨kept.headed, kept.content.words, tables, lasting.erase here member (wordKey target)⟩
      have counted : ∀ removed : Bool, Preserves (Sustained holds header)
          (if removed then do
              onContent fun content => { content with bigramCount := content.bigramCount - 1 }
              supersede (BigramRecord.size dictionary.version)
            else pure ()) := fun removed =>
        .ite (.bind (preserves_onContent fun _ here => ⟨here.words, here.followers⟩) fun _ =>
          preserves_supersede _) (.pure ())
      exact counted (dictionary.content.followers.erase table (wordKey target)).1 _ erased

/-- What is kept by the operations on forests is kept by adding and removing words and bigrams. -/
theorem lasting_sustains (lasting : Forest.Lasting holds) :
    Lasting fun _ content => Sustains holds content where
  empty _ := ⟨⟨_, lasting.new⟩, ⟨_, lasting.new⟩⟩
  addUnigram header word unigram := by
    refine .bind .get fun dictionary => .bind (.check _) fun _ => .bind (.check _) fun _ =>
      .bind (preserves_reading _) fun found => ?_
    cases found with
    | none => exact preserves_insertUnigram lasting word _
    | some offset => exact preserves_replaceUnigram offset _
  addBigram header first bigram := by
    refine .bind .get fun dictionary => .bind (.check _) fun _ => .bind (.check _) fun _ => ?_
    exact .bind (preserves_require preserves_reading _) fun source =>
      .bind (preserves_require preserves_reading _) fun target =>
        preserves_storeBigram lasting source target _
  removeBigram header first second := by
    refine .bind .get fun dictionary => .bind (.check _) fun _ => .bind (.check _) fun _ =>
      .bind (.check _) fun _ => ?_
    exact .bind (preserves_require preserves_reading _) fun source =>
      .bind (preserves_require preserves_reading _) fun target =>
        preserves_dropBigram lasting source target

end Forests

end Dictionary

end Lexicon

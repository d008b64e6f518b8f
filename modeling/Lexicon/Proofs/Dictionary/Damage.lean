/-
Module: Lexicon.Proofs.Dictionary.Damage
Layer: Proofs
Purpose: Whatever a dictionary was opened from, no record that cannot be read is left out in silence
  when it is compacted or migrated; and once damage is noted it stays noted and bars both.
Imports: Lexicon.Proofs.Dictionary.Refusal, Lexicon.Proofs.Dictionary.Transfer,
  Lexicon.Proofs.Overwriting
Trusted boundary: none
Main exports: Dictionary.Walked, Dictionary.Unreadable, Dictionary.Session.damaged_drive,
  Dictionary.Unreadable.alarming, Dictionary.Alarming.ensures_forWords, Dictionary.unreadable_barred
-/
import Lexicon.Proofs.Dictionary.Refusal
import Lexicon.Proofs.Dictionary.Transfer
import Lexicon.Proofs.Overwriting

namespace Lexicon

/-! ### Damage that was noted -/

namespace Dictionary

variable {dictionary : Dictionary}

theorem damaged_noted : ∀ {dictionary : Dictionary}, dictionary.damaged = true →
    ∀ {β : Type} (reading : Reading β), (dictionary.note reading).2.damaged = true :=
  fun damaged _ reading => damaged_note damaged reading

/-- A reading with damage leaves a note. -/
theorem damaged_of_reading {β : Type} {reading : Reading β} (dictionary : Dictionary)
    (damaged : reading.damaged = true) : (dictionary.note reading).2.damaged = true := by
  simp [note, damaged]

/-- A change that does not heed damage leaves a note of it. -/
theorem Heedless.damaged {α : Type} {change : Mutation Dictionary α} (heedless : Heedless change)
    (damaged : dictionary.damaged = true) : (change.apply dictionary).2.damaged = true := by
  have same : dictionary.marked = dictionary := by rw [marked, ← damaged]
  have kept := heedless dictionary
  rw [same] at kept
  rw [kept]
  rfl

/-- A dictionary in which damage is noted is not compacted, and nothing is written. -/
theorem flushCompacted_of_damaged (damaged : dictionary.damaged = true) (directory : Directory)
    (name : String) :
    dictionary.flushCompacted directory name =
      (.error (if dictionary.updatable then .format .compactingDamaged else .notUpdatable),
        dictionary, directory) := by
  have compacted :
      compact.apply dictionary = (.error (.format .compactingDamaged), dictionary) := by
    rw [compact, Mutation.apply_ofChange, if_pos damaged]
  rw [flushCompacted, checkUpdatable, compacted]
  cases dictionary.updatable with
  | false => rfl
  | true => rfl

/-- Where no run is accepted, a source is not migrated. -/
theorem exists_error_of_migrate
    (barred : ∀ target, Ensures (fun migration => migration.source = dictionary)
      (Migration.run dictionary target) fun _ _ => False)
    (directory : Directory) (target : MigrationTarget) (versionNumber : Nat)
    (partialOutput : PartialOutput) :
    ∃ failure, (dictionary.migrate directory target versionNumber partialOutput).1 =
      .error failure := by
  generalize outcome : dictionary.migrate directory target versionNumber partialOutput = result
  obtain ⟨answer, after, written⟩ := result
  cases answer with
  | error failure => exact ⟨failure, rfl⟩
  | ok =>
      obtain ⟨version, migration, _, ran, _, _⟩ := exists_run_of_migrate outcome
      exact (barred target _ () migration rfl ran).elim

/-- A source in which damage is noted is not migrated. -/
theorem exists_error_of_damaged (damaged : dictionary.damaged = true) (directory : Directory)
    (target : MigrationTarget) (versionNumber : Nat) (partialOutput : PartialOutput) :
    ∃ failure, (dictionary.migrate directory target versionNumber partialOutput).1 =
      .error failure := by
  refine exists_error_of_migrate (fun target migration value after same ran => ?_) directory target
    versionNumber partialOutput
  exact Migration.ensures_run_damaged migration value after
    (by rw [Migration.OfSource, same, damaged]) ran

namespace Session

variable {session : Session}

theorem damaged_step (damaged : session.dictionary.damaged = true) (request : Request) :
    (session.step request).2.dictionary.damaged = true := by
  cases request with
  | addUnigram word unigram => exact (Heedless.addUnigram word unigram).damaged damaged
  | addBigram first bigram => exact (Heedless.addBigram first bigram).damaged damaged
  | removeBigram first second => exact (Heedless.removeBigram first second).damaged damaged
  | probability | bigramProbability | property | next => exact damaged_note damaged _
  | query question => exact damaged

theorem damaged_run (requests : List Request) : ∀ {session : Session},
    session.dictionary.damaged = true → (session.run requests).2.dictionary.damaged = true := by
  induction requests with
  | nil => exact fun damaged => damaged
  | cons request requests ih => exact fun damaged => ih (damaged_step damaged request)

/-- Whatever is done with a dictionary, a note of damage stays. -/
theorem damaged_perform (damaged : session.dictionary.damaged = true) (operation : Operation) :
    (session.perform operation).dictionary.damaged = true := by
  cases operation with
  | request request => exact damaged_step damaged request
  | addEntries entries start =>
      obtain ⟨requests, same⟩ := exists_run_addEntries session entries start
      rw [same]
      exact damaged_run requests damaged
  | completions | suggest | predict => exact damaged_note damaged _
  | flushCompacted directory name =>
      rw [perform, flushCompacted_of_damaged damaged]
      exact damaged
  | migrate directory target versionNumber partialOutput =>
      exact migrate_preserves (·.damaged = true) damaged directory versionNumber partialOutput
        (Migration.preserves_run fun keeps =>
          Migration.preserves_pass damaged_noted _ target keeps)

theorem damaged_drive (operations : List Operation) : ∀ {session : Session},
    session.dictionary.damaged = true → (session.drive operations).dictionary.damaged = true := by
  induction operations with
  | nil => exact fun damaged => damaged
  | cons operation operations ih => exact fun damaged => ih (damaged_perform damaged operation)

end Session

end Dictionary

/-! ### Readings that tell of something that cannot be read -/

namespace Reading

variable {α β : Type}

/-- There is no answer, or it comes with damage. -/
def Alarms (reading : Reading (Option α)) : Prop := reading.value = none ∨ reading.damaged = true

theorem alarms_of_none {first : Reading (Option α)} (next : α → Reading (Option β))
    (absent : first.value = none) : (first.andThen next).Alarms := by
  left
  rw [andThen, value_bind, absent]
  rfl

theorem alarms_of_some {first : Reading (Option α)} {next : α → Reading (Option β)} {value : α}
    (found : first.value = some value) (alarms : (next value).Alarms) :
    (first.andThen next).Alarms := by
  rw [Alarms, andThen, value_bind, damaged_bind, found, Bool.or_eq_true]
  exact alarms.imp_right .inr

end Reading

namespace Dictionary

variable {dictionary : Dictionary}

theorem damaged_of_readTerminal {offset : Nat}
    (unreadable : (dictionary.readTerminal offset).value = none) :
    (dictionary.readTerminal offset).damaged = true :=
  (Reading.damaged_ofRecord _).trans (congrArg Option.isNone unreadable)

/-! ### What is reached -/

/-- The offsets of the terminal records that a traversal reaches: the first one, if there are any
bytes, and behind each that can be read the next one. -/
inductive Walked (dictionary : Dictionary) : Nat → Prop where
  | start (some : 0 < dictionary.content.terminals.size) : Walked dictionary 0
  | next {token : Nat} {terminal : Terminal} (walked : Walked dictionary token)
      (read : (dictionary.readTerminal token).value = some terminal)
      (further : token + terminal.size < dictionary.content.terminals.size) :
      Walked dictionary (token + terminal.size)

/-- The words that a traversal reaches. -/
inductive Visited (dictionary : Dictionary) : Word → Prop where
  | reached {token : Nat} {terminal : Terminal} (walked : Walked dictionary token)
      (read : (dictionary.readTerminal token).value = some terminal) :
      Visited dictionary terminal.word

/-- There is something that cannot be read among what is reached: a terminal record of the traversal,
the place of a word of the traversal or a record that is found of it, or a record of one of its
bigrams. -/
inductive Unreadable (dictionary : Dictionary) : Prop where
  | terminal {token : Nat} (walked : Walked dictionary token)
      (unreadable : (dictionary.readTerminal token).value = none)
  | place {word : Word} (visited : Visited dictionary word)
      (absent : (dictionary.find word).value = none)
  | found {word : Word} {offset : Nat} (visited : Visited dictionary word)
      (found : (dictionary.find word).value = some offset)
      (unreadable : (dictionary.readTerminal offset).value = none)
  | unigram {word : Word} {offset : Nat} {terminal : Terminal} (visited : Visited dictionary word)
      (found : (dictionary.find word).value = some offset)
      (read : (dictionary.readTerminal offset).value = some terminal)
      (unreadable : (dictionary.readUnigram terminal.unigram).value = none)
  | follower {word : Word} {offset target record : Nat} (visited : Visited dictionary word)
      (found : (dictionary.find word).value = some offset)
      (among : (target, record) ∈ dictionary.followers offset)
      (unreadable : (dictionary.readTerminal target).value = none)
  | bigram {word : Word} {offset target record : Nat} (visited : Visited dictionary word)
      (found : (dictionary.find word).value = some offset)
      (among : (target, record) ∈ dictionary.followers offset)
      (unreadable : (dictionary.readBigram record).value = none)

/-- What is known of a word cannot be read without damage if one of its bigrams cannot. -/
theorem damaged_readFollowers {target record : Nat} (relations : List (Nat × Nat))
    (among : (target, record) ∈ relations)
    (damaged : (dictionary.readFollower target record).damaged = true) :
    (dictionary.readFollowers relations).damaged = true := by
  induction relations with
  | nil => cases among
  | cons relation relations ih =>
      obtain ⟨first, second⟩ := relation
      rw [readFollowers, Reading.damaged_bind, Reading.damaged_bind, Bool.or_eq_true,
        Bool.or_eq_true]
      rcases List.mem_cons.mp among with same | among
      · cases same
        exact .inl damaged
      · exact .inr (.inl (ih among))

theorem alarms_property_of_bigrams {word : Word} {offset : Nat}
    (found : (dictionary.find word).value = some offset)
    (damaged : (dictionary.bigrams offset).damaged = true) :
    (dictionary.property word).Alarms := by
  refine Reading.alarms_of_some found ?_
  cases read : (dictionary.readTerminal offset).value with
  | none => exact Reading.alarms_of_none _ read
  | some terminal =>
      refine Reading.alarms_of_some read ?_
      cases known : (dictionary.readUnigram terminal.unigram).value with
      | none => exact Reading.alarms_of_none _ known
      | some unigram =>
          refine Reading.alarms_of_some known (.inr ?_)
          rw [Reading.damaged_bind, damaged, Bool.true_or]

theorem damaged_readFollower_of_terminal {target : Nat} (record : Nat)
    (unreadable : (dictionary.readTerminal target).value = none) :
    (dictionary.readFollower target record).damaged = true := by
  rw [readFollower, Reading.andThen, Reading.damaged_bind, damaged_of_readTerminal unreadable,
    Bool.true_or]

theorem damaged_readFollower_of_record (target : Nat) {record : Nat}
    (unreadable : (dictionary.readBigram record).value = none) :
    (dictionary.readFollower target record).damaged = true := by
  cases read : (dictionary.readTerminal target).value with
  | none => exact damaged_readFollower_of_terminal record read
  | some terminal =>
      have damaged : (dictionary.readBigram record).damaged = true :=
        (Reading.damaged_ofRecord _).trans (congrArg Option.isNone unreadable)
      rw [readFollower, Reading.andThen, Reading.damaged_bind, read]
      dsimp only
      rw [Reading.andThen, Reading.damaged_bind, damaged, Bool.true_or, Bool.or_true]

/-- Whatever cannot be read is a terminal record of the traversal, or shows when what is known of a
word of the traversal is read. -/
theorem Unreadable.shows (unreadable : dictionary.Unreadable) :
    (∃ token, Walked dictionary token ∧ (dictionary.readTerminal token).value = none) ∨
      ∃ word, Visited dictionary word ∧ (dictionary.property word).Alarms := by
  cases unreadable with
  | terminal walked unreadable => exact .inl ⟨_, walked, unreadable⟩
  | place visited absent => exact .inr ⟨_, visited, Reading.alarms_of_none _ absent⟩
  | found visited found unreadable =>
      exact .inr ⟨_, visited, Reading.alarms_of_some found (Reading.alarms_of_none _ unreadable)⟩
  | unigram visited found read unreadable =>
      exact .inr ⟨_, visited, Reading.alarms_of_some found
        (Reading.alarms_of_some read (Reading.alarms_of_none _ unreadable))⟩
  | follower visited found among unreadable =>
      exact .inr ⟨_, visited, alarms_property_of_bigrams found
        (damaged_readFollowers _ among (damaged_readFollower_of_terminal _ unreadable))⟩
  | bigram visited found among unreadable =>
      exact .inr ⟨_, visited, alarms_property_of_bigrams found
        (damaged_readFollowers _ among (damaged_readFollower_of_record _ unreadable))⟩

/-! ### What a walk meets -/

/-- A walk from a token on meets something that cannot be read. -/
inductive Alarming (dictionary : Dictionary) : Nat → Prop where
  | unreadable {token : Nat} (inside : token < dictionary.content.terminals.size)
      (unreadable : (dictionary.readTerminal token).value = none) : Alarming dictionary token
  | here {token : Nat} {terminal : Terminal} (inside : token < dictionary.content.terminals.size)
      (read : (dictionary.readTerminal token).value = some terminal)
      (alarms : (dictionary.property terminal.word).Alarms) : Alarming dictionary token
  | further {token : Nat} {terminal : Terminal} (inside : token < dictionary.content.terminals.size)
      (read : (dictionary.readTerminal token).value = some terminal)
      (more : token + terminal.size < dictionary.content.terminals.size)
      (alarming : Alarming dictionary (token + terminal.size)) : Alarming dictionary token

theorem Walked.inside {token : Nat} (walked : Walked dictionary token) :
    token < dictionary.content.terminals.size := by
  cases walked with
  | start some => exact some
  | next walked read further => exact further

/-- What is met behind a token that a traversal reaches is met by the traversal. -/
theorem Walked.alarming {token : Nat} (walked : Walked dictionary token) :
    Alarming dictionary token → Alarming dictionary 0 := by
  induction walked with
  | start => exact id
  | next walked read further ih =>
      exact fun alarming => ih (.further walked.inside read further alarming)

theorem Unreadable.alarming (unreadable : dictionary.Unreadable) : Alarming dictionary 0 := by
  rcases unreadable.shows with ⟨token, walked, unreadable⟩ | ⟨word, visited, alarms⟩
  · exact walked.alarming (.unreadable walked.inside unreadable)
  · cases visited with
    | reached walked read => exact walked.alarming (.here walked.inside read alarms)

/-- Where a terminal record cannot be read a walk stops, and damage is met. -/
theorem nextWord_of_unreadable {token : Nat} (inside : token < dictionary.content.terminals.size)
    (unreadable : (dictionary.readTerminal token).value = none) :
    (dictionary.nextWord token).value = ([], 0) ∧ (dictionary.nextWord token).damaged = true := by
  rw [nextWord, if_neg (Nat.not_le.mpr inside), Reading.value_bind, Reading.damaged_bind, unreadable,
    damaged_of_readTerminal unreadable]
  exact ⟨rfl, rfl⟩

/-- Else it goes on, for as long as there are bytes. -/
theorem nextWord_of_read {token : Nat} {terminal : Terminal}
    (inside : token < dictionary.content.terminals.size)
    (read : (dictionary.readTerminal token).value = some terminal) :
    (dictionary.nextWord token).value = (terminal.word,
      if dictionary.content.terminals.size ≤ token + terminal.size then 0
      else token + terminal.size) := by
  rw [nextWord, if_neg (Nat.not_le.mpr inside), Reading.value_bind, read]
  rfl

/-- A word that is read has a letter. -/
theorem isEmpty_of_readTerminal {token : Nat} {terminal : Terminal}
    (read : (dictionary.readTerminal token).value = some terminal) :
    terminal.word.isEmpty = false := by
  rw [readTerminal, Reading.value_ofRecord] at read
  obtain ⟨⟨⟨letters, _⟩, _⟩, _⟩ := Terminal.readAt_eq_some_iff.mp read
  exact List.isEmpty_eq_false_iff.mpr letters

section Walks

variable {σ ε : Type} [MonadLiftT Reading (ExceptT ε (StateM σ))] {noted : σ → Prop}
  {visit : Word → ExceptT ε (StateM σ) Unit}

/-- A walk that meets something that cannot be read leaves a note, or it is refused; provided that
readings with damage leave one, and visits of words of which something cannot be read.  The induction
is on what the walk meets. -/
theorem Alarming.ensures_forWords
    (reads : ∀ reading : Reading (Word × Nat),
      Preserves noted (liftM reading : ExceptT ε (StateM σ) (Word × Nat)))
    (heeds : ∀ reading : Reading (Word × Nat),
      Ensures (fun _ => True) (liftM reading : ExceptT ε (StateM σ) (Word × Nat))
        fun value after => value = reading.value ∧ (reading.damaged = true → noted after))
    (keeps : ∀ word, Preserves noted (visit word))
    (visits : ∀ word, (dictionary.property word).Alarms →
      Ensures (fun _ => True) (visit word) fun _ => noted)
    {token : Nat} (alarming : Alarming dictionary token) :
    Ensures (fun _ => True) (dictionary.forWords visit token) fun _ => noted := by
  induction alarming with
  | unreadable inside unreadable =>
      obtain ⟨stops, damaged⟩ := nextWord_of_unreadable inside unreadable
      rw [forWords]
      refine (heeds _).bind_eq ?_
      rw [stops]
      exact .pure fun _ heeded => heeded damaged
  | @here token terminal inside read alarms =>
      have step := nextWord_of_read inside read
      rw [forWords]
      refine (heeds _).bind_eq ?_
      rw [step]
      dsimp only
      rw [if_neg (Bool.not_eq_true _ ▸ isEmpty_of_readTerminal read)]
      -- The visit itself leaves the note, and what follows keeps it.
      have left : ∀ {holds : σ → Prop}, Ensures holds (visit terminal.word) fun _ => noted :=
        fun state value after _ done => visits _ alarms state value after trivial done
      refine left.bind fun _ => ?_
      split
      next => exact .pure fun _ => id
      next => exact .of_preserves (.forWords dictionary reads keeps _)
  | @further token terminal inside read more alarming ih =>
      have step := nextWord_of_read inside read
      rw [forWords]
      refine (heeds _).bind_eq ?_
      rw [step, if_neg (Nat.not_le.mpr more)]
      dsimp only
      rw [if_neg (Bool.not_eq_true _ ▸ isEmpty_of_readTerminal read)]
      have left : ∀ {holds : σ → Prop}, Ensures holds (visit terminal.word) fun _ _ => True :=
        fun _ _ _ _ _ => trivial
      refine left.bind fun _ => ?_
      rw [dif_neg (by have := terminal.size_pos; omega)]
      exact ih

/-- A visit that begins with a reading of something that cannot be read leaves a note, or it is
refused. -/
theorem ensures_of_alarms {α : Type} {reading : Reading (Option α)} (alarms : reading.Alarms)
    (heeds : Ensures (fun _ => True) (liftM reading : ExceptT ε (StateM σ) (Option α))
      fun value after => value = reading.value ∧ (reading.damaged = true → noted after))
    {next : Option α → ExceptT ε (StateM σ) Unit} (error : ε) (absent : next none = throw error)
    (keeps : ∀ value, Preserves noted (next (some value))) :
    Ensures (fun _ => True) (liftM reading >>= next) fun _ => noted := by
  refine heeds.bind_eq ?_
  cases found : reading.value with
  | none =>
      rw [absent]
      exact .throw error
  | some value =>
      have damaged : reading.damaged = true := alarms.resolve_left (by rw [found]; exact nofun)
      exact fun state given after heeded done =>
        Ensures.of_preserves (keeps value) state given after (heeded damaged) done

end Walks

/-! ### Compaction -/

section Compacting

/-- Something holds of the dictionary that is read in a compaction. -/
def OfReplayed (holds : Dictionary → Prop) (compaction : Compaction) : Prop :=
  holds compaction.source

/-- What is done to the dictionary that is filled changes nothing in the one that is read. -/
theorem ofReplayed_onFresh {holds : Dictionary → Prop} (change : Mutation Dictionary Unit) :
    Preserves (OfReplayed holds) (Compaction.onFresh change) := .onPart fun _ here => here

/-- A replay that meets something that cannot be read leaves a note, or it is refused. -/
theorem Alarming.ensures_replay (alarming : Alarming dictionary 0) :
    Ensures (fun _ => True) dictionary.replay fun _ => OfReplayed (·.damaged = true) := by
  have reads : ∀ {β : Type} (reading : Reading β),
      Preserves (OfReplayed (·.damaged = true)) (liftM reading : Mutation Compaction β) :=
    fun reading _ here => damaged_noted here reading
  have heeds : ∀ {β : Type} (reading : Reading β),
      Ensures (fun _ => True) (liftM reading : Mutation Compaction β)
        fun value after => value = reading.value ∧
          (reading.damaged = true → OfReplayed (·.damaged = true) after) := by
    intro β reading compaction value after _ done
    cases done
    exact ⟨rfl, damaged_of_reading _⟩
  have visits : ∀ word, (dictionary.property word).Alarms →
      Ensures (fun _ => True) (dictionary.replayUnigram word)
        fun _ => OfReplayed (·.damaged = true) := by
    intro word alarms
    exact ensures_of_alarms alarms (heeds _) (.format (.unreadableRecord word)) rfl
      fun property => .onPart fun _ here => here
  have keeps := preserves_replayUnigram dictionary reads fun _ _ => ofReplayed_onFresh _
  have keepsPairs := preserves_replayBigrams dictionary reads fun _ _ => ofReplayed_onFresh _
  have first := alarming.ensures_forWords reads heeds keeps visits
  exact first.bind fun _ => .of_preserves (.forWords dictionary reads keepsPairs 0)

/-- A dictionary of which something cannot be read is not compacted, and its content stays. -/
theorem Alarming.compact (alarming : Alarming dictionary 0) :
    ∃ error after, Dictionary.compact.apply dictionary = (.error error, after) ∧
      after.content = dictionary.content := by
  have kept : Preserves (OfReplayed (Noted dictionary)) dictionary.replay :=
    preserves_replay dictionary (fun reading _ here => Noted.note here reading)
      (fun _ _ => ofReplayed_onFresh _) fun _ _ => ofReplayed_onFresh _
  rw [Dictionary.compact, Mutation.apply_ofChange]
  split
  next => exact ⟨_, _, rfl, rfl⟩
  next =>
    have noted := kept
      { source := dictionary, fresh := empty dictionary.header dictionary.configuration }
      (.refl dictionary)
    have alarmed := alarming.ensures_replay
      { source := dictionary, fresh := empty dictionary.header dictionary.configuration }
    change OfReplayed _ (dictionary.replay.apply _).2 at noted
    dsimp only
    generalize outcome : dictionary.replay.apply
      { source := dictionary, fresh := empty dictionary.header dictionary.configuration } = result
      at noted ⊢
    obtain ⟨answer, compaction⟩ := result
    cases answer with
    | error error => exact ⟨_, _, rfl, Noted.content noted⟩
    | ok =>
        have damaged : compaction.source.damaged = true := alarmed () compaction trivial outcome
        dsimp only
        rw [if_pos damaged]
        exact ⟨_, _, rfl, Noted.content noted⟩

theorem Alarming.flushCompacted (alarming : Alarming dictionary 0) (directory : Directory)
    (name : String) :
    ∃ error after, dictionary.flushCompacted directory name = (.error error, after, directory) ∧
      after.content = dictionary.content := by
  obtain ⟨error, after, refused, same⟩ := alarming.compact
  rw [Dictionary.flushCompacted]
  cases dictionary.checkUpdatable with
  | error other => exact ⟨other, dictionary, rfl, rfl⟩
  | ok =>
      rw [refused]
      exact ⟨error, after, rfl, same⟩

end Compacting

/-! ### Migration -/

open Migration in
/-- A migration whose source has something that cannot be read fails with its first pass. -/
theorem Alarming.ensures_run (alarming : Alarming dictionary 0) (target : MigrationTarget) :
    Ensures (fun migration => migration.source = dictionary) (Migration.run dictionary target)
      fun _ _ => False := by
  have heeds : ∀ {β : Type} (reading : Reading β),
      Ensures (fun _ => True) (liftM reading : Stage β)
        fun value after => value = reading.value ∧
          (reading.damaged = true → OfSource (·.damaged = true) after) := by
    intro β reading migration value after _ done
    cases done
    exact ⟨rfl, damaged_of_reading _⟩
  have visits : ∀ word, (dictionary.property word).Alarms →
      Ensures (fun _ => True) (visitWord dictionary target Migration.addUnigram word)
        fun _ => OfSource (·.damaged = true) := by
    intro word alarms
    exact ensures_of_alarms alarms (heeds _)
      { step := .readingWord, cause := .format (.unreadableRecord word) } rfl fun property =>
        .bind (preserves_makeRoom target) fun _ => preserves_addUnigram word property
  have walked := alarming.ensures_forWords (preserves_lift damaged_noted) heeds
    (preserves_visitWord damaged_noted dictionary target preserves_addUnigram) visits
  have passed : Ensures (fun migration => migration.source = dictionary)
      (pass dictionary target Migration.addUnigram) fun _ _ => False := by
    refine Ensures.bind (fun state value after _ done => walked state value after trivial done)
      fun _ => .bind_get fun migration damaged => .ite (fun _ => .throw _) fun sound => ?_
    exact absurd damaged sound
  exact passed.bind fun _ _ _ _ failed => failed.elim

/-! ### Both rewrites -/

/-- A dictionary is not rewritten: it is neither compacted, which leaves its content and all files as
they are, nor migrated. -/
structure Barred (dictionary : Dictionary) : Prop where
  compacted : ∀ directory name, ∃ error after,
    dictionary.flushCompacted directory name = (.error error, after, directory) ∧
      after.content = dictionary.content
  migrated : ∀ directory target versionNumber partialOutput,
    ∃ failure, (dictionary.migrate directory target versionNumber partialOutput).1 = .error failure

/-- A dictionary is not rewritten if it holds something that cannot be read, among all that is reached
in doing so.  Once damage is noted it stays noted, whatever is done with the dictionary, and bars it
from being rewritten without so much as another note being left. -/
theorem unreadable_barred (dictionary : Dictionary) (tokens : List Nat)
    (operations : List Operation) :
    (dictionary.Unreadable → dictionary.Barred) ∧
      (dictionary.damaged = true →
        let last := ((Session.mk dictionary tokens).drive operations).dictionary
        last.damaged = true ∧ last.Barred ∧ ∀ directory name,
          last.flushCompacted directory name =
            (.error (if last.updatable then .format .compactingDamaged else .notUpdatable), last,
              directory)) := by
  refine ⟨fun unreadable => ⟨unreadable.alarming.flushCompacted,
    exists_error_of_migrate unreadable.alarming.ensures_run⟩, fun damaged => ?_⟩
  intro last
  have lasting : last.damaged = true := Session.damaged_drive operations damaged
  exact ⟨lasting,
    ⟨fun directory name => ⟨_, _, flushCompacted_of_damaged lasting directory name, rfl⟩,
      exists_error_of_damaged lasting⟩,
    flushCompacted_of_damaged lasting⟩

/-- A letter whose unigram record is said to begin behind the last of the records. -/
def bereft : Content :=
  { unigramCount := 1
    words := ⟨.ofSlots #[.node (LabelSet.singleton (Label.ofKey 97 0)) 1 0, .entry 97 1 none], 1⟩
    terminals := ⟨(Terminal.encode { word := [97], unigram := 5 }).toArray⟩ }

/-- From the image of that a dictionary is opened, which is not rewritten.  When the letter was asked
for damage is noted, and stays noted. -/
theorem unreadable_barred_bereft :
    ∃ image dictionary, Image.encode ⟨.plain, "en", default⟩ bereft = .ok image ∧
      openFile ⟨[(["m"], .file image.toByteArray)]⟩ "m" 0 0 true .standard = .ok dictionary ∧
      dictionary.damaged = false ∧ dictionary.Unreadable ∧ dictionary.Barred ∧
      let asked := (dictionary.note (dictionary.probability [97])).2
      asked.damaged = true ∧
        asked.flushCompacted ⟨[]⟩ "m" = (.error (.format .compactingDamaged), asked, ⟨[]⟩) := by
  obtain ⟨image, encoded, opened⟩ := exists_openFile_lone
    (show bereft.words.Readable by decide +kernel) (show bereft.followers.Readable by decide +kernel)
    ⟨by decide, by decide⟩ ⟨by decide, by decide⟩ .standard
  generalize same : ofContent ⟨.plain, "en", default⟩ bereft.reloaded true .standard = dictionary
    at opened
  have some : 0 < dictionary.content.terminals.size := by rw [← same]; decide +kernel
  have read : (dictionary.readTerminal 0).value = Option.some { word := [97], unigram := 5 } := by
    rw [← same]; decide +kernel
  have found : (dictionary.find [97]).value = Option.some 0 := by rw [← same]; decide +kernel
  have unknown : (dictionary.readUnigram 5).value = none := by rw [← same]; decide +kernel
  have damaged : (dictionary.note (dictionary.probability [97])).2.damaged = true := by
    rw [← same]; decide +kernel
  have updatable : dictionary.updatable = true := by rw [← same]; rfl
  have sound : dictionary.damaged = false := by rw [← same]; rfl
  have unreadable : dictionary.Unreadable :=
    .unigram (.reached (.start some) read) found read unknown
  obtain ⟨-, -, barred⟩ := (unreadable_barred
    (dictionary.note (dictionary.probability [97])).2 [0] []).2 damaged
  have refused := barred ⟨[]⟩ "m"
  have writable : (dictionary.note (dictionary.probability [97])).2.updatable = true := updatable
  rw [Session.drive, List.foldl_nil, writable, if_pos rfl] at refused
  exact ⟨image, dictionary, encoded, opened, sound, unreadable,
    (unreadable_barred dictionary [0] []).1 unreadable, damaged, refused⟩

end Dictionary

end Lexicon

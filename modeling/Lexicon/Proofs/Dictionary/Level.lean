/-
Module: Lexicon.Proofs.Dictionary.Level
Layer: Proofs
Purpose: Two dictionaries that hold the same in the same buffers do so after every change that both
  accept, whatever their limits are and however their forests came about.
Imports: Lexicon.Proofs.Dictionary.Relations
Trusted boundary: none
Main exports: Mutation.Both, Dictionary.Files, Dictionary.Level, Dictionary.Alike,
  Dictionary.Alike.addUnigram, Dictionary.Alike.addBigram
-/
import Lexicon.Proofs.Dictionary.Relations

namespace Lexicon

open Vocabulary

/-! ### Changes that are both accepted -/

/-- If two changes are both accepted, they have the same answer and leave related states. -/
def Mutation.Both {σ α : Type} (related : σ → σ → Prop) (first second : Mutation σ α)
    (state other : σ) : Prop :=
  ∀ (value answer : α) (after last : σ), first.apply state = (.ok value, after) →
    second.apply other = (.ok answer, last) → value = answer ∧ related after last

namespace Mutation.Both

variable {σ α β : Type} {related farther : σ → σ → Prop} {state other : σ}

theorem pure (here : related state other) (value : α) :
    Both related (Pure.pure value) (Pure.pure value) state other := by
  intro _ _ _ _ done doneOther
  cases done
  cases doneOther
  exact ⟨rfl, here⟩

theorem throw (error : Error) (second : Mutation σ α) :
    Both related (MonadExcept.throw error) second state other := by
  intro _ _ _ _ done
  cases done

/-- The states in between may be related in another way than those in the end. -/
theorem andThen {first second : Mutation σ α} {next further : α → Mutation σ β}
    (both : Both related first second state other)
    (rest : ∀ value {after last : σ}, related after last →
      Both farther (next value) (further value) after last) :
    Both farther (first >>= next) (second >>= further) state other := by
  intro value answer after last done doneOther
  rw [apply_bind] at done doneOther
  cases outcome : first.apply state with
  | mk step middle =>
      cases outcomeOther : second.apply other with
      | mk stepOther middleOther =>
          rw [outcome] at done
          rw [outcomeOther] at doneOther
          cases step with
          | error error => cases done
          | ok given =>
              cases stepOther with
              | error error => cases doneOther
              | ok givenOther =>
                  obtain ⟨rfl, between⟩ := both _ _ _ _ outcome outcomeOther
                  exact rest given between _ _ _ _ done doneOther

theorem bind {first second : Mutation σ α} {next further : α → Mutation σ β}
    (both : Both related first second state other)
    (rest : ∀ value {after last : σ}, related after last →
      Both related (next value) (further value) after last) :
    Both related (first >>= next) (second >>= further) state other :=
  both.andThen rest

/-- What is done for each item keeps states related. -/
theorem forM {items : List α} {visit : α → Mutation σ Unit}
    (each : ∀ item {state other : σ}, related state other →
      Both related (visit item) (visit item) state other) (here : related state other) :
    Both related (items.forM visit) (items.forM visit) state other := by
  induction items generalizing state other with
  | nil => exact pure here ()
  | cons item items ih => exact (each item here).bind fun _ => ih

/-- What follows starts from the states as they are. -/
theorem bind_get {next further : σ → Mutation σ β}
    (rest : Both related (next state) (further other) state other) :
    Both related (get >>= next) (get >>= further) state other := rest

/-- Of checks it only counts that both are passed. -/
theorem check (here : related state other) (first second : Except Error Unit) :
    Both related (liftM first : Mutation σ Unit) (liftM second) state other := by
  intro _ _ _ _ done doneOther
  rw [apply_check] at done doneOther
  cases first with
  | error error => cases done
  | ok =>
      cases second with
      | error error => cases doneOther
      | ok =>
          cases done
          cases doneOther
          exact ⟨rfl, here⟩

theorem require (here : related state other) (first second : Bool) (error fault : Error) :
    Both related (Mutation.require first error) (Mutation.require second fault) state other := by
  intro _ _ _ _ done doneOther
  rw [apply_require] at done doneOther
  cases first with
  | false => cases done
  | true =>
      cases second with
      | false => cases doneOther
      | true =>
          cases done
          cases doneOther
          exact ⟨rfl, here⟩

theorem modify {change move : σ → σ} (keeps : related (change state) (move other)) :
    Both related (modify change) (modify move) state other := by
  intro _ _ _ _ done doneOther
  cases done
  cases doneOther
  exact ⟨rfl, keeps⟩

/-- A change of a part relates wholes if it relates parts, and the parts relate the wholes. -/
theorem onPart {τ : Type} {same : τ → τ → Prop} {part : σ → τ} {replace : σ → τ → σ}
    {change move : Mutation τ α} (both : Both same change move (part state) (part other))
    (keeps : ∀ {after last : τ}, same after last →
      related (replace state after) (replace other last)) :
    Both related (Mutation.onPart part replace change) (Mutation.onPart part replace move) state
      other := by
  intro value answer _ _ done doneOther
  rw [apply_onPart, Prod.mk.injEq] at done doneOther
  obtain ⟨accepted, rfl⟩ := done
  obtain ⟨acceptedOther, rfl⟩ := doneOther
  obtain ⟨equal, between⟩ :=
    both value answer _ _ (Prod.ext accepted rfl) (Prod.ext acceptedOther rfl)
  exact ⟨equal, keeps between⟩

/-- The same is done to the same. -/
theorem of_eq (change : Mutation σ α) (state : σ) : Both Eq change change state state := by
  intro value answer after last done doneOther
  rw [done] at doneOther
  cases doneOther
  exact ⟨rfl, rfl⟩

end Mutation.Both

open Mutation (Both)

namespace Dictionary

/-! ### Dictionaries with the same buffers -/

/-- A relation of forests that lasts when the same word or the same bigram is filed in both. -/
structure Files (same : Forest → Forest → Prop) : Prop where
  word : ∀ {first second : Forest}, same first second → ∀ terminal word,
    Both same (fileWord terminal Forest.root word) (fileWord terminal Forest.root word) first second
  bigram : ∀ {first second : Forest}, same first second → ∀ source target record,
    Both same (fileBigram source target record) (fileBigram source target record) first second

theorem files_eq : Files Eq where
  word := by
    rintro first _ rfl terminal word
    exact .of_eq _ first
  bigram := by
    rintro first _ rfl source target record
    exact .of_eq _ first

/-- Where nothing is asked of forests, nothing has to last. -/
theorem files_any : Files fun _ _ => True where
  word _ _ _ := fun _ _ _ _ _ _ => ⟨rfl, trivial⟩
  bigram _ _ _ _ := fun _ _ _ _ _ _ => ⟨rfl, trivial⟩

/-- Two dictionaries with the same header, buffers and counts, and with forests that are related. -/
structure Level (same : Forest → Forest → Prop) (first second : Dictionary) : Prop where
  header : second.header = first.header
  terminals : second.content.terminals = first.content.terminals
  records : second.content.records = first.content.records
  words : same first.content.words second.content.words
  followers : same first.content.followers second.content.followers
  unigramCount : second.content.unigramCount = first.content.unigramCount
  bigramCount : second.content.bigramCount = first.content.bigramCount

namespace Level

variable {same : Forest → Forest → Prop} {first second : Dictionary}

theorem version (level : Level same first second) : second.version = first.version :=
  congrArg Header.version level.header

/-- Only forests, buffers and counts matter. -/
theorem noted (level : Level same first second) {after last : Dictionary}
    (noted : after = { first with damaged := after.damaged, superseded := after.superseded })
    (notedOther : last = { second with damaged := last.damaged, superseded := last.superseded }) :
    Level same after last := by
  rw [noted, notedOther]
  exact ⟨level.header, level.terminals, level.records, level.words, level.followers,
    level.unigramCount, level.bigramCount⟩

theorem reading {α : Type} (level : Level same first second) {here there : Reading α}
    (equal : there = here) :
    Both (Level same) (liftM here : Mutation Dictionary α) (liftM there) first second := by
  intro _ _ _ _ done doneOther
  subst equal
  cases done
  cases doneOther
  exact ⟨rfl, level.noted rfl rfl⟩

theorem supersede (level : Level same first second) (bytes other : Nat) :
    Both (Level same) (supersede bytes) (Dictionary.supersede other) first second :=
  .modify (level.noted rfl rfl)

theorem readTerminal (level : Level same first second) (offset : Nat) :
    second.readTerminal offset = first.readTerminal offset := by
  rw [Dictionary.readTerminal, level.terminals]
  rfl

theorem readUnigram (level : Level same first second) (offset : Nat) :
    second.readUnigram offset = first.readUnigram offset := by
  rw [Dictionary.readUnigram, level.version, level.records]
  rfl

/-! ### Adding words -/

theorem replaceUnigram (level : Level same first second) (offset : Nat) (record : List UInt8) :
    Both (Level same) (replaceUnigram offset record) (Dictionary.replaceUnigram offset record) first
      second := by
  refine .bind_get (.bind (level.reading (level.readTerminal offset)) fun terminal => ?_)
  intro middle other between
  cases terminal with
  | none => exact .throw _ _
  | some terminal =>
      refine .bind (.check between _ _) fun _ => ?_
      intro middle other between
      refine .bind (between.reading (level.readUnigram _)) fun old => ?_
      intro middle other between
      refine .bind (.modify ?_) fun _ => fun between => between.supersede _ _
      rw [level.records]
      refine ⟨between.header, ?_, ?_, between.words, between.followers, between.unigramCount,
        between.bigramCount⟩
      · dsimp only
        rw [between.terminals]
      · dsimp only
        rw [between.records]

theorem insertUnigram (files : Files same) (level : Level same first second) (word : Word)
    (record : List UInt8) :
    Both (Level same) (insertUnigram word record) (Dictionary.insertUnigram word record) first
      second := by
  refine .bind_get (.bind (.require level _ _ _ _) fun _ => ?_)
  intro middle other between
  refine .bind (.check between _ _) fun _ => ?_
  intro middle other between
  rw [level.records, level.terminals]
  refine .bind (.onPart (files.word between.words _ _) fun words => ?_) fun _ => ?_
  · exact ⟨between.header, between.terminals, between.records, words, between.followers,
      between.unigramCount, between.bigramCount⟩
  · intro middle other between
    refine .modify ⟨between.header, ?_, ?_, between.words, between.followers, ?_,
      between.bigramCount⟩
    · dsimp only
      rw [between.terminals]
    · dsimp only
      rw [between.records]
    · dsimp only
      rw [between.unigramCount]

theorem storeBigram (files : Files same) (level : Level same first second) (source target : Nat)
    (record : List UInt8)
    (known : second.hasBigram source target = first.hasBigram source target) :
    Both (Level same) (storeBigram source target record)
      (Dictionary.storeBigram source target record) first second := by
  have file : ∀ {middle other : Dictionary}, Level same middle other → ∀ offset,
      Both (Level same) (onFollowers (fileBigram source target offset))
        (onFollowers (fileBigram source target offset)) middle other := by
    intro middle other between offset
    exact .onPart (files.bigram between.followers _ _ _) fun followers =>
      ⟨between.header, between.terminals, between.records, between.words, followers,
        between.unigramCount, between.bigramCount⟩
  have append : ∀ {middle other : Dictionary}, Level same middle other →
      Both (Level same)
        (onContent fun content => { content with records := Buffer.append content.records record })
        (onContent fun content => { content with records := Buffer.append content.records record })
        middle other := by
    intro middle other between
    refine .modify ⟨between.header, between.terminals, ?_, between.words, between.followers,
      between.unigramCount, between.bigramCount⟩
    dsimp only
    rw [between.records]
  refine .bind_get ?_
  dsimp only
  rw [known, level.records]
  split
  next =>
    exact .bind (.check level _ _) fun _ _ _ between => .bind (file between _)
      fun _ _ _ between => .bind (append between) fun _ _ _ between => between.supersede _ _
  next =>
    refine .bind (.require level _ _ _ _) fun _ _ _ between => .bind (.check between _ _)
      fun _ _ _ between => .bind (file between _) fun _ _ _ between =>
        .bind (append between) fun _ middle other between => ?_
    refine .modify ⟨between.header, between.terminals, between.records, between.words,
      between.followers, between.unigramCount, ?_⟩
    dsimp only
    rw [between.bigramCount]

end Level

/-! ### Dictionaries that find the same -/

/-- Two dictionaries on a level in which words are found at the same places, and the same bigrams are
there. -/
structure Alike (same : Forest → Forest → Prop) (first second : Dictionary) : Prop where
  level : Level same first second
  find : ∀ word, second.find word = first.find word
  hasBigram : ∀ source target, second.hasBigram source target = first.hasBigram source target

namespace Alike

variable {same : Forest → Forest → Prop} {first second : Dictionary}

/-- Where the forests are the same, the same is found. -/
theorem of_level_eq (level : Level Eq first second) : Alike Eq first second := by
  refine ⟨level, fun word => ?_, fun source target => ?_⟩
  · rw [Dictionary.find, Dictionary.find, level.words]
  · rw [Dictionary.hasBigram, Dictionary.hasBigram, followerTable, followerTable, level.followers]

/-- Dictionaries on a level that say the same find the same. -/
theorem of_represents (level : Level same first second) {vocabulary : Vocabulary}
    (known : first.Represents vocabulary) (other : second.Represents vocabulary) :
    Alike same first second :=
  ⟨level, fun word => by rw [known.find, other.find], known.hasBigram_congr other⟩

/-- What a reading finds in both leaves them as they were, but for damage. -/
theorem reading {α : Type} (alike : Alike same first second) {here there : Reading α}
    (equal : there = here) :
    Both (Alike same) (liftM here : Mutation Dictionary α) (liftM there) first second := by
  intro _ _ _ _ done doneOther
  subst equal
  cases done
  cases doneOther
  exact ⟨rfl, alike.level.noted rfl rfl, alike.find, alike.hasBigram⟩

theorem require (alike : Alike same first second) (word : Word) :
    Both (Alike same) (require word) (Dictionary.require word) first second := by
  refine .bind_get (.bind (alike.reading (alike.find word)) fun found _ _ between => ?_)
  cases found with
  | none => exact .throw _ _
  | some offset => exact .pure between offset

/-- Where a word is added in both, it is added in the same way. -/
theorem addUnigram (files : Files same) (alike : Alike same first second) (word : Word)
    (unigram : Unigram) :
    Both (Level same) (addUnigram word unigram) (Dictionary.addUnigram word unigram) first
      second := by
  refine .bind_get (.andThen (.check alike _ _) fun _ _ _ between => ?_)
  refine .andThen (.check between _ _) fun _ _ _ between => ?_
  rw [alike.level.version]
  refine .andThen (between.reading (alike.find word)) fun place _ _ between => ?_
  cases place with
  | none => exact between.level.insertUnigram files word _
  | some offset => exact between.level.replaceUnigram offset _

/-- Where a bigram is added in both, it is added in the same way. -/
theorem addBigram (files : Files same) (alike : Alike same first second) (word : Word)
    (bigram : Bigram) :
    Both (Level same) (addBigram word bigram) (Dictionary.addBigram word bigram) first second := by
  refine .bind_get (.andThen (.check alike _ _) fun _ _ _ between => ?_)
  refine .andThen (.check between _ _) fun _ _ _ between => ?_
  refine .andThen (between.require word) fun source _ _ between => ?_
  refine .andThen (between.require bigram.target) fun target _ _ between => ?_
  rw [alike.level.version]
  exact between.level.storeBigram files source target _ (between.hasBigram source target)

end Alike

end Dictionary

end Lexicon

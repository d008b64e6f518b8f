/-
Module: Lexicon.Proofs.Dictionary.Indistinct
Layer: Proofs
Purpose: Two dictionaries that hold the same records of the same words answer every question alike,
  and still do so after the same changes, if room is found for these in both.
Imports: Lexicon.Proofs.Dictionary.Genuine, Lexicon.Proofs.Dictionary.Level
Trusted boundary: none
Main exports: Dictionary.Indistinct, Dictionary.indistinct_of_represents, Dictionary.Alteration,
  Dictionary.Admitted, Dictionary.Matched, Dictionary.Matched.alterAll
-/
import Lexicon.Proofs.Dictionary.Genuine
import Lexicon.Proofs.Dictionary.Level

namespace Lexicon

open Vocabulary

open Mutation (Both)

namespace Reading

/-- Readings that agree are the same. -/
theorem Agree.eq {α : Type} {first second : Reading α} (agree : Agree first second) :
    second = first := by
  obtain ⟨answer, rfl, rfl⟩ := agree
  rfl

end Reading

namespace Dictionary

/-! ### Answers and the note of damage -/

section Cleared

variable (dictionary : Dictionary)

theorem property_cleared (word : Word) :
    dictionary.cleared.property word = dictionary.property word := by
  have read : ∀ relations, dictionary.cleared.readFollowers relations =
      dictionary.readFollowers relations := by
    intro relations
    induction relations with
    | nil => rfl
    | cons relation relations ih =>
        rw [readFollowers, readFollowers, ih]
        rfl
  simp only [property, bigrams, read]
  rfl

theorem completions_cleared (stem : Word) :
    dictionary.cleared.completions stem = dictionary.completions stem := by
  have below : ∀ remaining table stem, dictionary.cleared.completionsFrom remaining table stem =
      dictionary.completionsFrom remaining table stem := by
    intro remaining
    induction remaining with
    | zero => exact fun _ _ => rfl
    | succ remaining ih =>
        intro table stem
        simp only [completionsFrom, ih]
        rfl
  simp only [completions, below]
  rfl

theorem suggest_cleared (request : SuggestionRequest) (shortlist : Shortlist) :
    dictionary.cleared.suggest request shortlist = dictionary.suggest request shortlist := by
  have considered : ∀ words shortlist, dictionary.cleared.consider request words shortlist =
      dictionary.consider request words shortlist := by
    intro words
    induction words with
    | nil => exact fun _ => rfl
    | cons word words ih =>
        intro shortlist
        simp only [consider, ih]
        rfl
  simp only [suggest, completions_cleared, considered]

theorem predict_cleared (previous : Word) (shortlist : Shortlist) :
    dictionary.cleared.predict previous shortlist = dictionary.predict previous shortlist := by
  have considered : ∀ bigrams shortlist, dictionary.cleared.considerFollowers bigrams shortlist =
      dictionary.considerFollowers bigrams shortlist := by
    intro bigrams
    induction bigrams with
    | nil => exact fun _ => rfl
    | cons bigram bigrams ih =>
        intro shortlist
        simp only [considerFollowers, ih]
        rfl
  simp only [predict, property_cleared, considered]

end Cleared

/-! ### Questions -/

/-- Whoever asks, at whatever token, gets the same answer from both, and meets damage in both or in
none. -/
structure Indistinct (first second : Dictionary) : Prop where
  probability : ∀ word, second.probability word = first.probability word
  bigramProbability : ∀ source target,
    second.bigramProbability source target = first.bigramProbability source target
  property : ∀ word, second.property word = first.property word
  nextWord : ∀ token, second.nextWord token = first.nextWord token
  walk : ∀ token, second.walk token = first.walk token
  completions : ∀ stem, second.completions stem = first.completions stem
  suggest : ∀ request shortlist, second.suggest request shortlist = first.suggest request shortlist
  predict : ∀ previous shortlist,
    second.predict previous shortlist = first.predict previous shortlist

section Questions

variable {first second : Dictionary}

/-- The terminal records are all that a walk reads. -/
theorem nextWord_congr (same : second.content.terminals = first.content.terminals) (token : Nat) :
    second.nextWord token = first.nextWord token := by
  rw [nextWord, nextWord, readTerminal, readTerminal, same]

theorem walk_congr (same : second.content.terminals = first.content.terminals) (token : Nat) :
    second.walk token = first.walk token := by
  have step := nextWord_congr same
  induction token using Dictionary.walk.induct first with
  | case1 token here ended =>
      rw [walk.eq_def second, walk.eq_def first]
      simp only [step, dif_pos (show (first.nextWord token).value.2 = 0 from ended)]
  | case2 token here further ih =>
      rw [walk.eq_def second, walk.eq_def first]
      simp only [step, dif_neg (show (first.nextWord token).value.2 ≠ 0 from further)]
      rw [ih]

/-- Contents that represent the same vocabulary, with the same terminal records, answer alike, also
where damage is noted. -/
theorem indistinct_of_represents {vocabulary : Vocabulary}
    (represents : first.content.Represents first.version vocabulary)
    (representsOther : second.content.Represents second.version vocabulary)
    (same : second.content.terminals = first.content.terminals) : Indistinct first second := by
  -- the note of damage is nothing that is read
  have known : first.cleared.Represents vocabulary := ⟨represents, rfl⟩
  have other : second.cleared.Represents vocabulary := ⟨representsOther, rfl⟩
  refine ⟨fun word => ?_, fun source target => ?_, fun word => ?_, nextWord_congr same,
    walk_congr same, fun stem => ?_, fun request shortlist => ?_, fun previous shortlist => ?_⟩
  · exact (other.probability word).trans (known.probability word).symm
  · exact (other.bigramProbability source target).trans (known.bigramProbability source target).symm
  · rw [← property_cleared, ← property_cleared first, known.property, other.property]
  · rw [← completions_cleared, ← completions_cleared first]
    exact (known.completions other stem).eq
  · rw [← suggest_cleared, ← suggest_cleared first]
    exact (known.suggest other request shortlist).eq
  · rw [← predict_cleared, ← predict_cleared first]
    exact (known.predict other previous shortlist).eq

end Questions

/-! ### Refusals for want of room -/

/-- A change is refused neither for want of room nor because no changes are accepted at all. -/
def Admitted (answer : Except Error Unit) : Prop :=
  answer ≠ .error .notUpdatable ∧
    ∀ used requested capacity, answer ≠ .error (.bufferFull used requested capacity)

/-- Two decisions are the same if both admit what is asked for. -/
def Agreed (first second : Except Error Unit) : Prop :=
  Admitted first → Admitted second → second = first

namespace Agreed

theorem refl (decision : Except Error Unit) : Agreed decision decision := fun _ _ => rfl

theorem andThen {first second next further : Except Error Unit} (agreed : Agreed first second)
    (rest : Agreed next further) :
    Agreed (first >>= fun _ => next) (second >>= fun _ => further) := by
  cases first with
  | error error =>
      cases second with
      | error fault => exact agreed
      | ok => exact fun admitted _ => nomatch agreed admitted ⟨nofun, nofun⟩
  | ok =>
      cases second with
      | error fault => exact fun _ admitted => nomatch agreed ⟨nofun, nofun⟩ admitted
      | ok => exact rest

theorem ite {condition : Prop} [Decidable condition] {first second next further : Except Error Unit}
    (here : Agreed first second) (there : Agreed next further) :
    Agreed (if condition then first else next) (if condition then second else further) := by
  split
  next => exact here
  next => exact there

theorem allow (terms other : Terms) : Agreed terms.allow other.allow := by
  intro admitted admittedOther
  rw [Terms.allow] at admitted admittedOther
  rw [Terms.allow, Terms.allow]
  split at admitted
  next accepts =>
    split at admittedOther
    next acceptsOther => rw [if_pos accepts, if_pos acceptsOther]
    next => exact absurd rfl admittedOther.1
  next => exact absurd rfl admitted.1

theorem afford (limits : Configuration) (used requested more further : Nat) :
    Agreed (Vocabulary.afford limits used requested) (Vocabulary.afford limits more further) := by
  intro admitted admittedOther
  rw [afford_eq] at admitted admittedOther
  rw [afford_eq, afford_eq]
  split at admitted
  next => exact absurd rfl (admitted.2 _ _ _)
  next enough =>
    split at admittedOther
    next => exact absurd rfl (admittedOther.2 _ _ _)
    next enoughOther => rw [if_neg enough, if_neg enoughOther]

variable {terms other : Terms}

theorem acceptUnigram (vocabulary : Vocabulary) (limits : other.limits = terms.limits)
    (used more : Nat) (word : Word) (unigram : Unigram) :
    Agreed (vocabulary.acceptUnigram terms used word unigram)
      (vocabulary.acceptUnigram other more word unigram) := by
  rw [Vocabulary.acceptUnigram, Vocabulary.acceptUnigram, limits]
  exact (allow _ _).andThen ((refl _).andThen (ite (refl _) (afford _ _ _ _ _)))

theorem acceptBigram (vocabulary : Vocabulary) (limits : other.limits = terms.limits)
    (used more : Nat) (first : Word) (bigram : Bigram) :
    Agreed (vocabulary.acceptBigram terms used first bigram)
      (vocabulary.acceptBigram other more first bigram) := by
  rw [Vocabulary.acceptBigram, Vocabulary.acceptBigram, limits]
  exact (allow _ _).andThen ((refl _).andThen ((refl _).andThen
    (ite (refl _) (afford _ _ _ _ _))))

theorem acceptRemoval (vocabulary : Vocabulary) (first second : Word) :
    Agreed (vocabulary.acceptRemoval terms first second)
      (vocabulary.acceptRemoval other first second) :=
  (allow _ _).andThen ((refl _).andThen ((refl _).andThen (refl _)))

end Agreed

/-! ### Dictionaries that match -/

/-- Two dictionaries with the same header and limits, and the same records of the same words.  Their
forests may have come about in different ways. -/
structure Matched (first second : Dictionary) : Prop where
  header : second.header = first.header
  configuration : second.configuration = first.configuration
  terminals : second.content.terminals = first.content.terminals
  records : second.content.records = first.content.records
  represents : ∃ vocabulary, first.Represents vocabulary ∧ second.Represents vocabulary

namespace Matched

variable {first second : Dictionary}

theorem version (matched : Matched first second) : second.version = first.version :=
  congrArg Header.version matched.header

/-- Dictionaries that match answer alike. -/
theorem indistinct (matched : Matched first second) : Indistinct first second := by
  obtain ⟨vocabulary, known, other⟩ := matched.represents
  exact indistinct_of_represents known.content other.content matched.terminals

theorem query (matched : Matched first second) (question : String) :
    second.query question = first.query question := by
  obtain ⟨vocabulary, known, other⟩ := matched.represents
  rw [known.query, other.query, matched.configuration]

/-- Dictionaries that match find the same words and bigrams. -/
theorem alike (matched : Matched first second) : Alike (fun _ _ => True) first second := by
  obtain ⟨vocabulary, known, other⟩ := matched.represents
  refine .of_represents ⟨matched.header, matched.terminals, matched.records, trivial, trivial, ?_,
    ?_⟩ known other
  · rw [known.content.unigramCount, other.content.unigramCount]
  · rw [known.content.bigramCount, other.content.bigramCount]

end Matched

/-! ### Changes that keep records -/

/-- The terminal records and the other records of a dictionary, in its format. -/
def HasRecords (terminals records : ByteArray) (_ : Header) (content : Content) : Prop :=
  content.terminals = terminals ∧ content.records = records

/-- Removing a bigram leaves its record where it is. -/
theorem preserves_records (terminals records : ByteArray) (header : Header) (first second : Word) :
    Preserves (Kept (HasRecords terminals records) header) (removeBigram first second) := by
  refine .bind .get fun dictionary => .bind (.check _) fun _ => .bind (.check _) fun _ =>
    .bind (.check _) fun _ => ?_
  refine .bind (preserves_require preserves_reading _) fun source =>
    .bind (preserves_require preserves_reading _) fun target => ?_
  refine .bind .get fun dictionary => ?_
  cases dictionary.followerTable source with
  | none => exact .pure ()
  | some table =>
      refine .bind (.onPart fun _ kept => ⟨kept.headed, kept.content⟩) fun removed => ?_
      exact .ite (.bind (preserves_onContent fun _ here => here) fun _ => preserves_supersede _)
        (.pure ())

namespace Matched

variable {first second : Dictionary}

/-! ### Changes and compaction -/

/-- A change that is decided in both in the same way, and in both made with the same records, keeps
dictionaries matching. -/
theorem change (matched : Matched first second) {change : Mutation Dictionary Unit}
    (decided : ∀ {vocabulary : Vocabulary}, first.Represents vocabulary →
      second.Represents vocabulary → ∃ accepted acceptedOther next room more,
        Decides accepted change first next room ∧ Decides acceptedOther change second next more ∧
          Agreed accepted acceptedOther)
    (same : (change.apply first).1 = .ok () → (change.apply second).1 = .ok () →
      (change.apply second).2.content.terminals = (change.apply first).2.content.terminals ∧
        (change.apply second).2.content.records = (change.apply first).2.content.records)
    (admitted : Admitted (change.apply first).1) (admittedOther : Admitted (change.apply second).1) :
    (change.apply second).1 = (change.apply first).1 ∧
      Matched (change.apply first).2 (change.apply second).2 := by
  obtain ⟨vocabulary, known, other⟩ := matched.represents
  obtain ⟨accepted, acceptedOther, next, room, more, here, there, agreed⟩ := decided known other
  have answer : ∀ {accepted : Except Error Unit} {dictionary : Dictionary} {room : Nat},
      Decides accepted change dictionary next room → (change.apply dictionary).1 = accepted := by
    intro accepted dictionary room decided
    cases accepted with
    | error error => rw [show change.apply dictionary = _ from decided]
    | ok =>
        obtain ⟨after, done, _⟩ := decided
        rw [done]
  rw [answer here] at admitted
  rw [answer there] at admittedOther
  have agree := agreed admitted admittedOther
  subst agree
  refine ⟨(answer there).trans (answer here).symm, ?_⟩
  rw [answer here, answer there] at same
  cases acceptedOther with
  | error error =>
      rw [show change.apply first = _ from here, show change.apply second = _ from there]
      exact matched
  | ok =>
      obtain ⟨after, done, changed⟩ := here
      obtain ⟨last, doneOther, changedOther⟩ := there
      obtain ⟨terminals, records⟩ := same rfl rfl
      rw [done] at terminals records ⊢
      rw [doneOther] at terminals records ⊢
      exact ⟨changedOther.header.trans (matched.header.trans changed.header.symm),
        changedOther.configuration.trans (matched.configuration.trans changed.configuration.symm),
        terminals, records, next, changed.represents, changedOther.represents⟩

/-- Where both make a change, they make it with the same records, if it keeps them level. -/
theorem records_of_level {change : Mutation Dictionary Unit}
    (both : Both (Level fun _ _ => True) change change first second)
    (done : (change.apply first).1 = .ok ()) (doneOther : (change.apply second).1 = .ok ()) :
    (change.apply second).2.content.terminals = (change.apply first).2.content.terminals ∧
      (change.apply second).2.content.records = (change.apply first).2.content.records := by
  obtain ⟨_, level⟩ := both () () _ _ (Prod.ext done rfl) (Prod.ext doneOther rfl)
  exact ⟨level.terminals, level.records⟩

theorem addUnigram (matched : Matched first second) (word : Word) (unigram : Unigram)
    (admitted : Admitted ((Dictionary.addUnigram word unigram).apply first).1)
    (admittedOther : Admitted ((Dictionary.addUnigram word unigram).apply second).1) :
    ((Dictionary.addUnigram word unigram).apply second).1 =
        ((Dictionary.addUnigram word unigram).apply first).1 ∧
      Matched ((Dictionary.addUnigram word unigram).apply first).2
        ((Dictionary.addUnigram word unigram).apply second).2 := by
  refine matched.change ?_ ?_ admitted admittedOther
  · intro vocabulary known other
    have decided := other.addUnigram word unigram
    rw [matched.version] at decided
    exact ⟨_, _, _, _, _, known.addUnigram word unigram, decided,
      .acceptUnigram vocabulary matched.configuration _ _ _ _⟩
  · exact records_of_level (matched.alike.addUnigram files_any word unigram)

theorem addBigram (matched : Matched first second) (source : Word) (bigram : Bigram)
    (admitted : Admitted ((Dictionary.addBigram source bigram).apply first).1)
    (admittedOther : Admitted ((Dictionary.addBigram source bigram).apply second).1) :
    ((Dictionary.addBigram source bigram).apply second).1 =
        ((Dictionary.addBigram source bigram).apply first).1 ∧
      Matched ((Dictionary.addBigram source bigram).apply first).2
        ((Dictionary.addBigram source bigram).apply second).2 := by
  refine matched.change ?_ ?_ admitted admittedOther
  · intro vocabulary known other
    have decided := other.addBigram source bigram
    rw [matched.version] at decided
    exact ⟨_, _, _, _, _, known.addBigram source bigram, decided,
      .acceptBigram vocabulary matched.configuration _ _ _ _⟩
  · exact records_of_level (matched.alike.addBigram files_any source bigram)

theorem removeBigram (matched : Matched first second) (source target : Word)
    (admitted : Admitted ((Dictionary.removeBigram source target).apply first).1)
    (admittedOther : Admitted ((Dictionary.removeBigram source target).apply second).1) :
    ((Dictionary.removeBigram source target).apply second).1 =
        ((Dictionary.removeBigram source target).apply first).1 ∧
      Matched ((Dictionary.removeBigram source target).apply first).2
        ((Dictionary.removeBigram source target).apply second).2 := by
  refine matched.change ?_ ?_ admitted admittedOther
  · intro vocabulary known other
    exact ⟨_, _, _, _, _, known.removeBigram source target, other.removeBigram source target,
      .acceptRemoval vocabulary _ _⟩
  · intro _ _
    obtain ⟨_, terminals, records⟩ :=
      preserves_records _ _ first.header source target first ⟨rfl, rfl, rfl⟩
    obtain ⟨_, terminalsOther, recordsOther⟩ :=
      preserves_records _ _ second.header source target second ⟨rfl, rfl, rfl⟩
    exact ⟨terminalsOther.trans (matched.terminals.trans terminals.symm),
      recordsOther.trans (matched.records.trans records.symm)⟩

/-- Compaction fills the same content into both. -/
theorem compact (matched : Matched first second) :
    (Dictionary.compact.apply second).1 = (Dictionary.compact.apply first).1 ∧
      Matched (Dictionary.compact.apply first).2 (Dictionary.compact.apply second).2 ∧
      ((Dictionary.compact.apply first).1 = .ok () →
        (Dictionary.compact.apply second).2.content =
          (Dictionary.compact.apply first).2.content) := by
  obtain ⟨vocabulary, known, other⟩ := matched.represents
  obtain ⟨answer, after, compacted⟩ := known.compact
  obtain ⟨answerOther, last, compactedOther⟩ := other.compact
  have here := compacted.represents
  have there := compactedOther.represents
  have done := known.compact_eq
  have doneOther := other.compact_eq
  rw [matched.header, matched.configuration] at doneOther
  rw [compacted.applied] at done ⊢
  rw [compactedOther.applied] at doneOther ⊢
  generalize (fill vocabulary).apply _ = outcome at done doneOther
  obtain ⟨filled, fresh⟩ := outcome
  cases filled with
  | error error =>
      cases done
      cases doneOther
      exact ⟨rfl, matched, nofun⟩
  | ok =>
      cases done
      cases doneOther
      exact ⟨rfl, ⟨rfl, rfl, rfl, rfl, vocabulary, here, there⟩, fun _ => rfl⟩

end Matched

/-- What accepts changes stays so when it is compacted. -/
theorem Represents.updatable_compact {dictionary : Dictionary} {vocabulary : Vocabulary}
    (represents : dictionary.Represents vocabulary) :
    (Dictionary.compact.apply dictionary).2.updatable = dictionary.updatable := by
  obtain ⟨answer, after, compacted⟩ := represents.compact
  rw [compacted.applied]
  exact congrArg Terms.updatable compacted.terms

/-- What is written depends on the header and the content. -/
theorem flush_congr {first second : Dictionary} (header : second.header = first.header)
    (content : second.content = first.content) (updatable : second.updatable = first.updatable)
    (directory : Directory) (name : String) :
    second.flush directory name = first.flush directory name := by
  rw [flush, flush, checkUpdatable, checkUpdatable, header, content, updatable]

/-- Where flushing with compaction is admitted, it is compaction and then flushing. -/
theorem flushCompacted_of_admitted {dictionary : Dictionary} {directory : Directory} {name : String}
    (admitted : Admitted (dictionary.flushCompacted directory name).1) :
    dictionary.updatable = true ∧
      dictionary.flushCompacted directory name =
        match compact.apply dictionary with
        | (.error error, after) => (.error error, after, directory)
        | (.ok (), after) =>
            ((after.flush directory name).1, after, (after.flush directory name).2) := by
  rw [flushCompacted, checkUpdatable] at admitted
  rw [flushCompacted, checkUpdatable]
  split at admitted
  next refused =>
    split at refused
    next => cases refused
    next =>
      cases refused
      exact absurd rfl admitted.1
  next accepted =>
    split at accepted
    next updatable => exact ⟨updatable, rfl⟩
    next => cases accepted

/-- Flushing with compaction has the same outcome for both. -/
theorem Matched.flushCompacted {first second : Dictionary} (matched : Matched first second)
    (directory : Directory) (name : String)
    (admitted : Admitted (first.flushCompacted directory name).1)
    (admittedOther : Admitted (second.flushCompacted directory name).1) :
    (second.flushCompacted directory name).1 = (first.flushCompacted directory name).1 ∧
      Matched (first.flushCompacted directory name).2.1
        (second.flushCompacted directory name).2.1 := by
  obtain ⟨vocabulary, known, other⟩ := matched.represents
  have kept := known.updatable_compact
  have keptOther := other.updatable_compact
  obtain ⟨same, next, content⟩ := matched.compact
  obtain ⟨updatable, done⟩ := flushCompacted_of_admitted admitted
  obtain ⟨updatableOther, doneOther⟩ := flushCompacted_of_admitted admittedOther
  rw [done, doneOther]
  generalize Dictionary.compact.apply first = outcome at kept same next content
  generalize Dictionary.compact.apply second = outcomeOther at keptOther same next content
  obtain ⟨answer, after⟩ := outcome
  obtain ⟨answerOther, last⟩ := outcomeOther
  obtain rfl : answerOther = answer := same
  cases answerOther with
  | error error => exact ⟨rfl, next⟩
  | ok =>
      have agree : last.updatable = after.updatable :=
        keptOther.trans (updatableOther.trans (updatable.symm.trans kept.symm))
      refine ⟨?_, next⟩
      dsimp only
      rw [flush_congr next.header (content rfl) agree]

/-! ### Changes one after the other -/

/-- Something that is done to change or to compact a dictionary. -/
inductive Alteration where
  | addUnigram (word : Word) (unigram : Unigram)
  | addBigram (first : Word) (bigram : Bigram)
  | removeBigram (first second : Word)
  | flushCompacted (directory : Directory) (name : String)

/-- What comes of an alteration. -/
def alter (dictionary : Dictionary) : Alteration → Except Error Unit × Dictionary
  | .addUnigram word unigram => (addUnigram word unigram).apply dictionary
  | .addBigram first bigram => (addBigram first bigram).apply dictionary
  | .removeBigram first second => (removeBigram first second).apply dictionary
  | .flushCompacted directory name =>
      let (answer, after, _) := dictionary.flushCompacted directory name
      (answer, after)

/-- What comes of some alterations, one after the other. -/
def alterAll (dictionary : Dictionary) : List Alteration → List (Except Error Unit) × Dictionary
  | [] => ([], dictionary)
  | alteration :: alterations =>
      let (answer, dictionary) := dictionary.alter alteration
      let (answers, dictionary) := alterAll dictionary alterations
      (answer :: answers, dictionary)

namespace Matched

variable {first second : Dictionary}

theorem alter (matched : Matched first second) (alteration : Alteration)
    (admitted : Admitted (first.alter alteration).1)
    (admittedOther : Admitted (second.alter alteration).1) :
    (second.alter alteration).1 = (first.alter alteration).1 ∧
      Matched (first.alter alteration).2 (second.alter alteration).2 := by
  cases alteration with
  | addUnigram word unigram => exact matched.addUnigram word unigram admitted admittedOther
  | addBigram source bigram => exact matched.addBigram source bigram admitted admittedOther
  | removeBigram source target => exact matched.removeBigram source target admitted admittedOther
  | flushCompacted directory name =>
      exact matched.flushCompacted directory name admitted admittedOther

/-- Whatever is admitted in both is answered alike, and both match afterwards. -/
theorem alterAll (matched : Matched first second) (alterations : List Alteration)
    (admitted : ∀ answer ∈ (first.alterAll alterations).1, Admitted answer)
    (admittedOther : ∀ answer ∈ (second.alterAll alterations).1, Admitted answer) :
    (second.alterAll alterations).1 = (first.alterAll alterations).1 ∧
      Matched (first.alterAll alterations).2 (second.alterAll alterations).2 := by
  induction alterations generalizing first second with
  | nil => exact ⟨rfl, matched⟩
  | cons alteration alterations ih =>
      obtain ⟨here, later⟩ := List.forall_mem_cons.mp admitted
      obtain ⟨hereOther, laterOther⟩ := List.forall_mem_cons.mp admittedOther
      obtain ⟨same, next⟩ := matched.alter alteration here hereOther
      obtain ⟨others, last⟩ := ih next later laterOther
      exact ⟨congrArg₂ List.cons same others, last⟩

end Matched

end Dictionary

end Lexicon

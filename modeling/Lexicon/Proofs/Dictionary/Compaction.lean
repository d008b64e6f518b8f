/-
Module: Lexicon.Proofs.Dictionary.Compaction
Layer: Proofs
Purpose: Compaction goes unnoticed by all who ask, whatever comes of it; and when it is refused.
Imports: Lexicon.Proofs.Dictionary.Lifetime
Trusted boundary: none
Main exports: Dictionary.Unnoticed, Dictionary.Session.Healthy.flushCompacted_unnoticed,
  Dictionary.rebuilt, Dictionary.Session.rebuilt_drive
-/
import Lexicon.Proofs.Dictionary.Lifetime

namespace Lexicon

open Vocabulary

open Reading (Agree)

namespace Dictionary

/-! ### Compaction and queries -/

/-- Whoever knows some tokens cannot tell one dictionary from another by asking, and meets no damage
in either.  Later requests act on the same content, which is that of one vocabulary; only the bytes
in use when they are made can make a difference. -/
structure Unnoticed (tokens : List Nat) (before after : Dictionary) : Prop where
  probability : ∀ word, Agree (before.probability word) (after.probability word)
  bigramProbability : ∀ first second,
    Agree (before.bigramProbability first second) (after.bigramProbability first second)
  property : ∀ word, Agree (before.property word) (after.property word)
  walk : ∀ token ∈ tokens, Agree (before.walk token) (after.walk token)
  completions : ∀ stem, Agree (before.completions stem) (after.completions stem)
  suggest : ∀ request shortlist,
    Agree (before.suggest request shortlist) (after.suggest request shortlist)
  predict : ∀ previous shortlist,
    Agree (before.predict previous shortlist) (after.predict previous shortlist)
  query : ∀ question, after.query question = before.query question
  later : ∃ vocabulary : Vocabulary, ∀ requests,
    ((Session.mk before tokens).run requests).1 =
        ((Vocabulary.Session.mk vocabulary tokens).run before.terms
          ((Session.mk before tokens).weigh requests)).1 ∧
      ((Session.mk after tokens).run requests).1 =
        ((Vocabulary.Session.mk vocabulary tokens).run before.terms
          ((Session.mk after tokens).weigh requests)).1

/-- Two dictionaries that say the same on the same terms cannot be told apart. -/
theorem Session.Speaks.unnoticed {before after : Dictionary} {vocabulary : Vocabulary}
    {tokens : List Nat} (speaks : (Session.mk before tokens).Speaks ⟨vocabulary, tokens⟩)
    (represents : after.Represents vocabulary) (terms : after.terms = before.terms) :
    Unnoticed tokens before after := by
  have known : before.Represents vocabulary := speaks.represents
  have afterwards : (Session.mk after tokens).Speaks ⟨vocabulary, tokens⟩ :=
    (speaks.goOn represents terms).speaks
  refine ⟨?_, ?_, ?_, ?_, known.completions represents, known.suggest represents,
    known.predict represents, ?_, ⟨vocabulary, ?_⟩⟩
  · intro word
    rw [known.probability, represents.probability]
    exact .pure _
  · intro first second
    rw [known.bigramProbability, represents.bigramProbability]
    exact .pure _
  · intro word
    rw [known.property, represents.property]
    exact .pure _
  · intro token among
    exact known.walk represents (walkable (speaks.valid token among))
  · intro question
    rw [known.query, represents.query, show after.configuration = _ from congrArg Terms.limits terms]
    rfl
  · intro requests
    have later := (afterwards.run requests).1
    rw [show (Session.mk after tokens).dictionary.terms = before.terms from terms] at later
    exact ⟨(speaks.run requests).1, later⟩

/-- Whether a dictionary accepts to be compacted. -/
def rebuilt (dictionary : Dictionary) : Except Error Unit := do
  dictionary.checkUpdatable
  (compact.apply dictionary).1

/-- Flushing with compaction goes unnoticed, whatever comes of it.  If the dictionary is not
compacted, since it accepts no changes or reaches a limit, everything stays as it was, and no file is
written.  If it is, nothing is superseded in it, and it is written to the file; it stays compacted
also when that fails. -/
theorem Session.Healthy.flushCompacted_unnoticed {session : Session} (healthy : session.Healthy)
    (directory : Directory) (name : String) :
    ∃ answer after written,
      session.dictionary.flushCompacted directory name = (answer, after, written) ∧
        Unnoticed session.tokens session.dictionary after ∧
        match session.dictionary.rebuilt with
        | .error error =>
            (answer, after, written) = (.error error, session.dictionary, directory) ∧
              (error = .notUpdatable ∨ Exhausted session.dictionary.configuration error)
        | .ok () => after.superseded = 0 ∧ (answer, written) = after.flush directory name := by
  obtain ⟨⟨vocabulary, known⟩, speaks⟩ := healthy.speaks
  obtain ⟨before, tokens⟩ := session
  obtain rfl : tokens = known := speaks.tokens
  have represents : before.Represents vocabulary := speaks.represents
  obtain ⟨answer, after, compacted⟩ := represents.compact
  dsimp only
  rw [flushCompacted, rebuilt, compacted.applied]
  cases accepted : before.checkUpdatable with
  | error error =>
      have told : error = .notUpdatable := by
        rw [checkUpdatable_eq, Terms.allow] at accepted
        split at accepted
        next => cases accepted
        next => exact (Except.error.inj accepted).symm
      exact ⟨_, _, _, rfl, speaks.unnoticed represents rfl, rfl, Or.inl told⟩
  | ok =>
      cases answer with
      | error error =>
          obtain ⟨rfl, exhausted⟩ := compacted.refused rfl
          exact ⟨_, _, _, rfl, speaks.unnoticed represents rfl, rfl, Or.inr exhausted⟩
      | ok =>
          exact ⟨_, _, _, rfl, speaks.unnoticed compacted.represents compacted.terms,
            compacted.compacted rfl, rfl⟩

/-- Two words, one of them added twice, and the beginning of a walk. -/
def walking : List Operation :=
  [.request (.addUnigram [97, 98] { probability := 7 }),
    .request (.addUnigram [99] { probability := 5 }),
    .request (.addUnigram [97, 98] { probability := 8 }), .request (.next 0)]

/-- A walk through a dictionary in which a word was replaced can go on after compaction. -/
theorem Session.Healthy.flushCompacted_unnoticed_walking :
    create 403 "en" default .standard = .ok (empty ⟨.historical, "en", default⟩ .standard) ∧
      ∃ before,
        (Session.start (empty ⟨.historical, "en", default⟩ .standard)).drive walking = before ∧
        before.tokens = [0, 13] ∧ before.dictionary.rebuilt = .ok () ∧
        ∃ answer after written,
          before.dictionary.flushCompacted .empty "main" = (answer, after, written) ∧
            Unnoticed before.tokens before.dictionary after ∧
            after.superseded = 0 ∧ (answer, written) = after.flush .empty "main" := by
  have created :
      create 403 "en" default .standard = .ok (empty ⟨.historical, "en", default⟩ .standard) := rfl
  have tokens : ((Session.start (empty ⟨.historical, "en", default⟩ .standard)).drive
      walking).tokens = [0, 13] := by decide +kernel
  have accepted : ((Session.start (empty ⟨.historical, "en", default⟩ .standard)).drive
      walking).dictionary.rebuilt = .ok () := by decide +kernel
  have healthy := (Session.Healthy.created created).drive walking
  generalize (Session.start (empty ⟨.historical, "en", default⟩ .standard)).drive walking = before
    at tokens accepted healthy
  obtain ⟨answer, after, written, flushed, unnoticed, outcome⟩ :=
    healthy.flushCompacted_unnoticed .empty "main"
  rw [accepted] at outcome
  exact ⟨created, before, rfl, tokens, accepted, answer, after, written, flushed, unnoticed, outcome⟩

/-! ### Compaction and room -/

/-- A dictionary that was created and used in any way has no more words and bigrams than there may
be, and so compacting it is refused by the capacity checks alone: each word, and then each bigram, is
checked at the bytes that the compacted dictionary takes up to then.  Where it is refused, everything
stays as it was; where there is room for all that is reserved, it is not. -/
theorem Session.rebuilt_drive {number : Nat} {locale : String} {attributes : Attributes}
    {limits : Configuration} {dictionary driven : Dictionary} {operations : List Operation}
    (created : create number locale attributes limits = .ok dictionary)
    (used : ((start dictionary).drive operations).dictionary = driven) :
    driven.damaged = false ∧ driven.configuration = limits ∧
      ∃ vocabulary, driven.Represents vocabulary ∧
        driven.rebuilt =
          checkRoom limits (additions driven.version vocabulary) (empty driven.header limits) ∧
        (∀ error, driven.rebuilt = .error error → (compact.apply driven).2 = driven ∧
          ∃ used requested, error = .bufferFull used requested (ceiling limits) ∧
            ceiling limits < used + requested) ∧
        (driven.fullRoom vocabulary ≤ ceiling limits → driven.rebuilt = .ok ()) := by
  obtain ⟨speaks, begun⟩ := speaks_start created
  have same : (start dictionary).dictionary.configuration = limits := congrArg Terms.limits begun
  obtain ⟨⟨vocabulary, _⟩, speaks, terms, within⟩ :=
    speaks.drive ⟨Nat.zero_le _, Nat.zero_le _⟩ operations
  have represents : driven.Represents vocabulary := used ▸ speaks.represents
  have settled : driven.terms = ⟨dictionary.version, limits, true⟩ := used ▸ terms.trans begun
  have configuration : driven.configuration = limits := congrArg Terms.limits settled
  rw [same, ← configuration] at within
  obtain ⟨answer, after, compacted⟩ := represents.compact
  have rebuilt : driven.rebuilt = answer := by
    rw [Dictionary.rebuilt, checkUpdatable_eq, settled, compacted.applied]
    rfl
  have checked := compacted.checked within
  have enough := compacted.roomy within
  rw [configuration] at checked enough
  rw [rebuilt, compacted.applied]
  refine ⟨represents.undamaged, configuration, vocabulary, represents, checked, ?_, enough⟩
  intro error refused
  exact ⟨(compacted.refused refused).1, checkRoom_eq_error (checked.symm.trans refused)⟩

/-- Two words are added, one as a follower of the other, which is then replaced by what takes more
bytes. -/
def linking : List Request :=
  [.addUnigram [97] { probability := 7 }, .addUnigram [98] { probability := 5 },
    .addBigram [97] { target := [98], probability := 9 },
    .addUnigram [97] { probability := 7, shortcuts := [⟨[98], 1⟩] }]

/-- All that is accepted, but compaction is not: when the turn of the follower comes there are both
words already, one with its longer record, and there is one byte too few.  With one more byte it goes
through. -/
theorem Session.rebuilt_drive_linking :
    create 4 "en" default (.ofCapacity 1646) =
        .ok (empty ⟨.plain, "en", default⟩ (.ofCapacity 1646)) ∧
      ((start (empty ⟨.plain, "en", default⟩ (.ofCapacity 1646))).run linking).1 =
        List.replicate 4 (.changed (.ok ())) ∧
      (∃ driven vocabulary,
        ((start (empty ⟨.plain, "en", default⟩ (.ofCapacity 1646))).drive
          (linking.map .request)).dictionary = driven ∧
        driven.Represents vocabulary ∧
        driven.rebuilt = .error (.bufferFull 110 1537 1646) ∧
        checkRoom (.ofCapacity 1646) (additions driven.version vocabulary)
          (empty driven.header (.ofCapacity 1646)) = .error (.bufferFull 110 1537 1646) ∧
        (compact.apply driven).2 = driven) ∧
      create 4 "en" default (.ofCapacity 1647) =
        .ok (empty ⟨.plain, "en", default⟩ (.ofCapacity 1647)) ∧
      ∃ driven vocabulary,
        ((start (empty ⟨.plain, "en", default⟩ (.ofCapacity 1647))).drive
          (linking.map .request)).dictionary = driven ∧
        driven.Represents vocabulary ∧ driven.rebuilt = .ok () ∧
        checkRoom (.ofCapacity 1647) (additions driven.version vocabulary)
          (empty driven.header (.ofCapacity 1647)) = .ok () := by
  have less : create 4 "en" default (.ofCapacity 1646) =
      .ok (empty ⟨.plain, "en", default⟩ (.ofCapacity 1646)) := rfl
  have more : create 4 "en" default (.ofCapacity 1647) =
      .ok (empty ⟨.plain, "en", default⟩ (.ofCapacity 1647)) := rfl
  have refused : ((start (empty ⟨.plain, "en", default⟩ (.ofCapacity 1646))).drive
      (linking.map .request)).dictionary.rebuilt = .error (.bufferFull 110 1537 1646) := by
    decide +kernel
  have accepted : ((start (empty ⟨.plain, "en", default⟩ (.ofCapacity 1647))).drive
      (linking.map .request)).dictionary.rebuilt = .ok () := by decide +kernel
  refine ⟨less, by decide +kernel, ?_, more, ?_⟩
  · obtain ⟨_, _, vocabulary, represents, checked, unchanged, _⟩ := rebuilt_drive less rfl
    exact ⟨_, vocabulary, rfl, represents, refused, checked.symm.trans refused,
      (unchanged _ refused).1⟩
  · obtain ⟨_, _, vocabulary, represents, checked, _⟩ := rebuilt_drive more rfl
    exact ⟨_, vocabulary, rfl, represents, accepted, checked.symm.trans accepted⟩

/-- As many bytes as adding a word of one code point takes at most. -/
def tight : Configuration := .ofCapacity 812

/-- A word is added, and then replaced by what takes more bytes. -/
def overwriting : List Request :=
  [.addUnigram [97] { probability := 7 },
    .addUnigram [97]
      { probability := 7
        shortcuts := [⟨List.replicate 48 98, 1⟩, ⟨List.replicate 48 98, 1⟩] }]

/-- Both additions are accepted, but there is no room for the second word without the first, since
then room for the key is reserved a second time. -/
theorem Session.rebuilt_overwriting :
    create 4 "en" default tight = .ok (empty ⟨.plain, "en", default⟩ tight) ∧
      ((start (empty ⟨.plain, "en", default⟩ tight)).run overwriting).1 =
        [.changed (.ok ()), .changed (.ok ())] ∧
      ((start (empty ⟨.plain, "en", default⟩ tight)).run overwriting).2.dictionary.damaged = false ∧
      ((start (empty ⟨.plain, "en", default⟩ tight)).run overwriting).2.dictionary.rebuilt =
        .error (.bufferFull 32 1168 812) := by
  refine ⟨rfl, ?_, ?_, ?_⟩
  · decide +kernel
  · decide +kernel
  · decide +kernel

end Dictionary

end Lexicon

/-
Module: Lexicon.Proofs.Dictionary.Filling
Layer: Proofs
Purpose: An empty dictionary can be filled with all that another one says.  Where the limits afford
  the words and bigrams, it is the capacity checks alone that decide.
Imports: Lexicon.Proofs.Dictionary.Replay
Trusted boundary: none
Main exports: Dictionary.Addition, Dictionary.checkRoom, Dictionary.additions, Dictionary.Fills,
  Dictionary.fills_additions, Dictionary.Represents.compact
-/
import Lexicon.Proofs.Dictionary.Replay

namespace Lexicon

open Vocabulary

/-- The bigrams that a vocabulary lists are of words that are there, and pass their check. -/
theorem Content.Represents.checkBigram_of_mem_pairs {content : Content} {version : FormatVersion}
    {vocabulary : Vocabulary} (known : content.Represents version vocabulary) {word : Word}
    {bigram : Bigram} (listed : (word, bigram) ∈ vocabulary.pairs) :
    word ∈ vocabulary.spelled ∧ bigram.target ∈ vocabulary.spelled ∧
      Dictionary.checkBigram word bigram = .ok () := by
  obtain ⟨member, among⟩ := mem_pairs.mp listed
  obtain ⟨memberTarget, has⟩ := mem_bigramsOf.mp among
  exact ⟨member, memberTarget, Dictionary.checkBigram_eq_ok.mpr
    ⟨known.storable_word member, known.storable_word memberTarget,
      (known.storableBigram has).probability⟩⟩

namespace Dictionary

/-! ### Additions and their room -/

/-- A change that adds something, and the bytes that are reserved for it. -/
structure Addition where
  change : Mutation Dictionary Unit
  room : Nat

/-- Makes all additions, one after the other. -/
def addAll (additions : List Addition) : Mutation Dictionary Unit :=
  additions.forM fun addition => addition.change

/-- The bytes that are reserved for all additions. -/
def roomFor (additions : List Addition) : Nat := (additions.map fun addition => addition.room).sum

/-- The most bytes that a dictionary may take. -/
def ceiling (limits : Configuration) : Nat := min limits.capacity maxBufferBytes

/-- Makes the capacity checks of the additions, each at the bytes that are in use when its turn
comes, and nothing else. -/
def checkRoom (limits : Configuration) : List Addition → Dictionary → Except Error Unit
  | [], _ => .ok ()
  | addition :: additions, dictionary => do
      afford limits dictionary.usedBytes addition.room
      checkRoom limits additions (addition.change.apply dictionary).2

theorem afford_eq (limits : Configuration) (used requested : Nat) :
    afford limits used requested =
      if ceiling limits < used + requested then .error (.bufferFull used requested (ceiling limits))
      else .ok () := rfl

/-- Where the checks fail, there is an addition for which there is no room. -/
theorem checkRoom_eq_error {limits : Configuration} {additions : List Addition}
    {dictionary : Dictionary} {error : Error}
    (refused : checkRoom limits additions dictionary = .error error) :
    ∃ used requested, error = .bufferFull used requested (ceiling limits) ∧
      ceiling limits < used + requested := by
  induction additions generalizing dictionary with
  | nil => cases refused
  | cons addition additions ih =>
      rw [checkRoom, afford_eq] at refused
      split at refused
      next exceeded =>
        cases refused
        exact ⟨_, _, rfl, exceeded⟩
      next => exact ih refused

/-- Errors that tell of a lack of room, or of a limit that is reached. -/
inductive Exhausted (limits : Configuration) : Error → Prop where
  | room {used requested : Nat} (lacking : ceiling limits < used + requested) :
      Exhausted limits (.bufferFull used requested (ceiling limits))
  | limit (limit : Limit) (count : Nat) : Exhausted limits (.limitReached limit count)

/-- What is checked last of an addition: a limit, and then room. -/
theorem exhausted_of_full {limits : Configuration} {full : Prop} [Decidable full] {limit : Limit}
    {count used requested : Nat} {error : Error}
    (refused : (if full then .error (.limitReached limit count) else afford limits used requested) =
      Except.error error) : Exhausted limits error := by
  split at refused
  next =>
    cases refused
    exact .limit limit count
  next =>
    rw [afford_eq] at refused
    split at refused
    next exceeded =>
      cases refused
      exact .room exceeded
    next => cases refused

/-- What comes of making some additions. -/
structure Filled (ample : Prop) (additions : List Addition) (before : Dictionary)
    (vocabulary : Vocabulary) (answer : Except Error Unit) (after : Dictionary) : Prop where
  applied : (addAll additions).apply before = (answer, after)
  changed : answer = .ok () → Changed before after vocabulary (roomFor additions)
  exhausted : ∀ {error : Error}, answer = .error error → Exhausted before.configuration error
  checked : ample → answer = checkRoom before.configuration additions before
  roomy : ample → before.usedBytes + roomFor additions ≤ ceiling before.configuration →
    answer = .ok ()

/-- If all additions are accepted, the dictionary says what the vocabulary says; else a limit is
reached.  Where `ample` holds the capacity checks decide, and room for all additions is enough. -/
def Fills (ample : Prop) (additions : List Addition) (before : Dictionary)
    (vocabulary : Vocabulary) : Prop :=
  ∃ answer after, Filled ample additions before vocabulary answer after

theorem Changed.refl {dictionary : Dictionary} {vocabulary : Vocabulary}
    (represents : dictionary.Represents vocabulary) : Changed dictionary dictionary vocabulary 0 :=
  ⟨represents, rfl, rfl, rfl, Nat.le_refl _⟩

theorem Changed.trans {first second third : Dictionary} {before after : Vocabulary} {room more : Nat}
    (changed : Changed first second before room) (further : Changed second third after more) :
    Changed first third after (room + more) := by
  refine ⟨further.represents, further.header.trans changed.header,
    further.configuration.trans changed.configuration, further.updatable.trans changed.updatable, ?_⟩
  have growth := changed.growth
  have grown := further.growth
  omega

namespace Fills

variable {ample : Prop} {before : Dictionary} {vocabulary next : Vocabulary}
  {additions more : List Addition} {addition : Addition}

theorem nil (represents : before.Represents vocabulary) : Fills ample [] before vocabulary :=
  ⟨.ok (), before, rfl, fun _ => .refl represents, nofun, fun _ => rfl, fun _ _ => rfl⟩

/-- One addition is followed by others if it is accepted. -/
theorem cons {accepted : Except Error Unit}
    (decided : Decides accepted addition.change before vocabulary addition.room)
    (exhausted : ∀ {error : Error}, accepted = .error error → Exhausted before.configuration error)
    (affords : ample → accepted = afford before.configuration before.usedBytes addition.room)
    (further : ∀ {after}, Changed before after vocabulary addition.room →
      Fills ample additions after next) :
    Fills ample (addition :: additions) before next := by
  have room : roomFor (addition :: additions) = addition.room + roomFor additions := List.sum_cons
  cases accepted with
  | error error =>
      refine ⟨.error error, before, Mutation.apply_bind_error decided _, nofun, exhausted, ?_, ?_⟩
      · intro enough
        rw [checkRoom, ← affords enough]
        rfl
      · intro enough fits
        have refused := affords enough
        rw [afford_eq, if_neg (by omega)] at refused
        exact refused
  | ok =>
      obtain ⟨after, done, changed⟩ := decided
      obtain ⟨answer, last, filled⟩ := further changed
      refine ⟨answer, last, (Mutation.apply_bind_ok done _).trans filled.applied, ?_, ?_, ?_, ?_⟩
      · intro accepted
        rw [room]
        exact changed.trans (filled.changed accepted)
      · rw [← changed.configuration]
        exact filled.exhausted
      · intro enough
        have checked := filled.checked enough
        rw [changed.configuration] at checked
        rw [checkRoom, ← affords enough, done, checked]
        rfl
      · intro enough fits
        have growth := changed.growth
        apply filled.roomy enough
        rw [changed.configuration]
        omega

/-- Items are added one after the other, and then others.  `stage` is what is known when some of the
items are in. -/
theorem of_stages {α : Type} {add : α → Addition} {items : List α} (stage : List α → Vocabulary)
    (represents : before.Represents (stage []))
    (each : ∀ {done rest : List α} {item : α}, items = done ++ item :: rest → ∀ {fresh : Dictionary},
      fresh.Represents (stage done) → fresh.terms = before.terms →
        ∃ accepted,
          Decides accepted (add item).change fresh (stage (done ++ [item])) (add item).room ∧
          (∀ {error : Error}, accepted = .error error → Exhausted fresh.configuration error) ∧
          (ample → accepted = afford fresh.configuration fresh.usedBytes (add item).room))
    (finish : ∀ {after : Dictionary} {used : Nat}, Changed before after (stage items) used →
      Fills ample more after next) :
    Fills ample (items.map add ++ more) before next := by
  have further : ∀ {rest done : List α} {fresh : Dictionary} {used : Nat}, items = done ++ rest →
      Changed before fresh (stage done) used → Fills ample (rest.map add ++ more) fresh next := by
    intro rest
    induction rest with
    | nil =>
        intro done fresh used split changed
        rw [List.append_nil] at split
        rw [← split] at changed
        exact finish changed
    | cons item rest ih =>
        intro done fresh used split changed
        obtain ⟨accepted, decided, exhausted, affords⟩ := each split changed.represents changed.terms
        refine .cons decided exhausted affords ?_
        intro after added
        exact ih (split.trans (List.append_cons _ _ _)) (changed.trans added)
  exact further (List.nil_append items).symm (.refl represents)

end Fills

/-! ### Filling with a vocabulary -/

section Accepting

variable {vocabulary : Vocabulary} {terms : Terms} {used : Nat}

/-- Whether a new word is accepted is a matter of its number and of room. -/
theorem acceptUnigram_of_new {word : Word} {unigram : Unigram} (allowed : terms.updatable = true)
    (new : word ∉ vocabulary.spelled) (storableWord : word.Storable) (storable : unigram.Storable) :
    vocabulary.acceptUnigram terms used word unigram =
      if terms.limits.maxUnigrams ≤ vocabulary.words.length then
        .error (.limitReached .unigrams terms.limits.maxUnigrams)
      else afford terms.limits used
        (unigramSize terms.version unigram + (recordSize word + keyRoom word.length)) := by
  have checked := checkUnigram_eq_ok.mpr ⟨storableWord, storable⟩
  rw [acceptUnigram, Terms.allow, if_pos allowed, checked, unigramRoom, if_neg new]
  simp only [new, not_false_eq_true, true_and]
  rfl

/-- So it is for a new bigram of words that are there. -/
theorem acceptBigram_of_new {word : Word} {bigram : Bigram} (allowed : terms.updatable = true)
    (new : (word, bigram.target) ∉ vocabulary.bigrams) (member : word ∈ vocabulary.spelled)
    (memberTarget : bigram.target ∈ vocabulary.spelled)
    (checked : checkBigram word bigram = .ok ()) :
    vocabulary.acceptBigram terms used word bigram =
      if terms.limits.maxBigrams ≤ vocabulary.bigrams.size then
        .error (.limitReached .bigrams terms.limits.maxBigrams)
      else afford terms.limits used (BigramRecord.size terms.version + keyRoom 2) := by
  rw [acceptBigram, Terms.allow, if_pos allowed, checked, requireWords,
    if_pos ⟨member, memberTarget⟩, bigramRoom, if_neg new]
  simp only [new, not_false_eq_true, true_and]
  rfl

/-- A new word is added where one more is allowed and there is room for it. -/
theorem Represents.decides_newUnigram {dictionary : Dictionary}
    (represents : dictionary.Represents vocabulary) (same : dictionary.terms = terms)
    (allowed : terms.updatable = true) {word : Word} {unigram : Unigram}
    (new : word ∉ vocabulary.spelled) (storableWord : word.Storable) (storable : unigram.Storable) :
    Decides
      (if terms.limits.maxUnigrams ≤ vocabulary.words.length then
        .error (.limitReached .unigrams terms.limits.maxUnigrams)
      else afford terms.limits dictionary.usedBytes
        (unigramSize terms.version unigram + (recordSize word + keyRoom word.length)))
      (Dictionary.addUnigram word unigram) dictionary
      ⟨vocabulary.words ++ [(word, unigram.kept terms.version)], vocabulary.bigrams⟩
      (unigramSize terms.version unigram + (recordSize word + keyRoom word.length)) := by
  have decided := represents.addUnigram word unigram
  have version : dictionary.version = terms.version := congrArg Terms.version same
  rw [same, acceptUnigram_of_new allowed new storableWord storable, store, if_neg new, unigramRoom,
    if_neg new, version] at decided
  exact decided

/-- So is a new bigram of words that are there. -/
theorem Represents.decides_newBigram {dictionary : Dictionary}
    (represents : dictionary.Represents vocabulary) (same : dictionary.terms = terms)
    (allowed : terms.updatable = true) {word : Word} {bigram : Bigram}
    (new : (word, bigram.target) ∉ vocabulary.bigrams) (member : word ∈ vocabulary.spelled)
    (memberTarget : bigram.target ∈ vocabulary.spelled)
    (checked : checkBigram word bigram = .ok ()) :
    Decides
      (if terms.limits.maxBigrams ≤ vocabulary.bigrams.size then
        .error (.limitReached .bigrams terms.limits.maxBigrams)
      else afford terms.limits dictionary.usedBytes (BigramRecord.size terms.version + keyRoom 2))
      (Dictionary.addBigram word bigram) dictionary
      (vocabulary.relate word bigram.target (bigram.record terms.version))
      (BigramRecord.size terms.version + keyRoom 2) := by
  have decided := represents.addBigram word bigram
  have version : dictionary.version = terms.version := congrArg Terms.version same
  rw [same, acceptBigram_of_new allowed new member memberTarget checked, bigramRoom, if_neg new,
    version] at decided
  exact decided

end Accepting

/-- The addition of a word. -/
def unigramAddition (version : FormatVersion) (entry : Word × Unigram) : Addition :=
  ⟨addUnigram entry.1 entry.2,
    unigramSize version entry.2 + (recordSize entry.1 + keyRoom entry.1.length)⟩

/-- The addition of a bigram. -/
def bigramAddition (version : FormatVersion) (pair : Word × Bigram) : Addition :=
  ⟨addBigram pair.1 pair.2, BigramRecord.size version + keyRoom 2⟩

/-- All words and then all bigrams of a vocabulary, to be added to a dictionary without any. -/
def additions (version : FormatVersion) (vocabulary : Vocabulary) : List Addition :=
  vocabulary.words.map (unigramAddition version) ++ vocabulary.pairs.map (bigramAddition version)

theorem fill_eq (version : FormatVersion) (vocabulary : Vocabulary) :
    fill vocabulary = addAll (additions version vocabulary) := by
  rw [addAll, additions, List.forM_eq_forM, List.forM_append, List.forM_map, List.forM_map]
  rfl

section Filling

variable {content : Content} {version : FormatVersion} {vocabulary : Vocabulary} {fresh : Dictionary}
  {limits : Configuration}

/-- Adding the next word of a vocabulary. -/
theorem decides_unigramAddition (known : content.Represents version vocabulary)
    {done rest : List (Word × Unigram)} {entry : Word × Unigram}
    (split : vocabulary.words = done ++ entry :: rest) (represents : fresh.Represents ⟨done, ∅⟩)
    (terms : fresh.terms = ⟨version, limits, true⟩) :
    ∃ accepted, Decides accepted (unigramAddition version entry).change fresh ⟨done ++ [entry], ∅⟩
        (unigramAddition version entry).room ∧
      (∀ {error : Error}, accepted = .error error → Exhausted limits error) ∧
      (vocabulary.Within limits →
        accepted = afford limits fresh.usedBytes (unigramAddition version entry).room) := by
  obtain ⟨word, unigram⟩ := entry
  obtain ⟨storableWord, storable, kept⟩ := known.storable
    (show (word, unigram) ∈ vocabulary.words by rw [split]; simp)
  have new : word ∉ (Vocabulary.mk done ∅).spelled :=
    notMem_spelled_of_split known.distinct split ∅
  have decided := represents.decides_newUnigram terms rfl new storableWord storable
  rw [kept] at decided
  refine ⟨_, decided, exhausted_of_full, ?_⟩
  intro within
  have few := within.words
  rw [split, List.length_append, List.length_cons] at few
  apply if_neg
  dsimp only
  omega

/-- Adding the next bigram of a vocabulary whose words are there. -/
theorem decides_bigramAddition (known : content.Represents version vocabulary)
    {done rest : List (Word × Bigram)} {pair : Word × Bigram}
    (split : vocabulary.pairs = done ++ pair :: rest)
    (represents : fresh.Represents ⟨vocabulary.words, relations version done⟩)
    (terms : fresh.terms = ⟨version, limits, true⟩) :
    ∃ accepted, Decides accepted (bigramAddition version pair).change fresh
        ⟨vocabulary.words, relations version (done ++ [pair])⟩ (bigramAddition version pair).room ∧
      (∀ {error : Error}, accepted = .error error → Exhausted limits error) ∧
      (vocabulary.Within limits →
        accepted = afford limits fresh.usedBytes (bigramAddition version pair).room) := by
  obtain ⟨word, bigram⟩ := pair
  have distinct := nodup_pairs known.distinct
  have counted : vocabulary.pairs.length = vocabulary.bigrams.size := by
    rw [← known.relations_pairs, size_relations _ distinct]
  obtain ⟨member, memberTarget, checked⟩ :=
    known.checkBigram_of_mem_pairs (show (word, bigram) ∈ vocabulary.pairs by rw [split]; simp)
  have new : (word, bigram.target) ∉ relations version done :=
    notMem_relations_of_split distinct split version
  rw [split, List.map_append, List.nodup_append] at distinct
  have decided := represents.decides_newBigram terms rfl new member memberTarget checked
  rw [relations_concat]
  refine ⟨_, decided, exhausted_of_full, ?_⟩
  intro within
  have few := within.bigrams
  rw [← counted, split, List.length_append, List.length_cons] at few
  have size := size_relations version distinct.1
  apply if_neg
  dsimp only
  omega

/-- A vocabulary that some content represents can be filled into a dictionary of the same format that
says nothing yet. -/
theorem fills_additions (known : content.Represents version vocabulary)
    (represents : fresh.Represents {}) (terms : fresh.terms = ⟨version, limits, true⟩) :
    Fills (vocabulary.Within limits) (additions version vocabulary) fresh vocabulary := by
  have configuration : ∀ {dictionary : Dictionary}, dictionary.terms = ⟨version, limits, true⟩ →
      dictionary.configuration = limits := congrArg Terms.limits
  refine .of_stages (fun done => ⟨done, ∅⟩) represents ?_ ?_
  · intro done rest entry split before filled same
    rw [configuration (same.trans terms)]
    exact decides_unigramAddition known split filled (same.trans terms)
  · intro after used changed
    rw [← List.append_nil (vocabulary.pairs.map _)]
    refine .of_stages (fun done => ⟨vocabulary.words, relations version done⟩) changed.represents
      ?_ ?_
    · intro done rest pair split before filled same
      have settled := same.trans (changed.terms.trans terms)
      rw [configuration settled]
      exact decides_bigramAddition known split filled settled
    · intro last more filled
      have all := filled.represents
      rw [known.relations_pairs] at all
      exact .nil all

end Filling

/-! ### Compaction -/

/-- The bytes that an empty dictionary takes, and those that are reserved for all that is said. -/
def fullRoom (dictionary : Dictionary) (vocabulary : Vocabulary) : Nat :=
  (empty dictionary.header dictionary.configuration).usedBytes +
    roomFor (additions dictionary.version vocabulary)

/-- What comes of compacting a dictionary. -/
structure Compacted (before : Dictionary) (vocabulary : Vocabulary) (answer : Except Error Unit)
    (after : Dictionary) : Prop where
  applied : compact.apply before = (answer, after)
  represents : after.Represents vocabulary
  terms : after.terms = before.terms
  refused : ∀ {error : Error}, answer = .error error →
    after = before ∧ Exhausted before.configuration error
  compacted : answer = .ok () → after.superseded = 0
  checked : vocabulary.Within before.configuration →
    answer = checkRoom before.configuration (additions before.version vocabulary)
      (empty before.header before.configuration)
  roomy : vocabulary.Within before.configuration →
    before.fullRoom vocabulary ≤ ceiling before.configuration → answer = .ok ()

/-- A compacted dictionary says the same.  Where the limits afford what is said, it is the capacity
checks alone that decide whether there is one. -/
theorem Represents.compact {before : Dictionary} {vocabulary : Vocabulary}
    (represents : before.Represents vocabulary) :
    ∃ answer after, Compacted before vocabulary answer after := by
  obtain ⟨answer, fresh, filled⟩ := fills_additions represents.content
    (represents_empty before.header before.configuration) rfl
  have applied := represents.compact_eq
  rw [fill_eq before.version, filled.applied] at applied
  cases answer with
  | error error =>
      exact ⟨.error error, before, applied, represents, rfl,
        fun refused => ⟨rfl, filled.exhausted refused⟩, nofun, filled.checked, filled.roomy⟩
  | ok =>
      have changed := filled.changed rfl
      have content := changed.represents.content
      rw [show fresh.version = before.version from congrArg Header.version changed.header] at content
      exact ⟨.ok (), _, applied, ⟨content, represents.undamaged⟩, rfl, nofun, fun _ => rfl,
        filled.checked, filled.roomy⟩

end Dictionary

end Lexicon

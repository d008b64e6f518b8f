/-
Module: Lexicon.Proofs.Dictionary.Vocabulary
Layer: Proofs
Purpose: What a dictionary says apart from how it is stored: words in order, with what is known about
  each, and a finite map of bigrams; and how that changes and answers.
Imports: Lexicon.Proofs.Record, Mathlib.Algebra.GroupWithZero.Nat, Mathlib.Data.Fintype.Basic
Trusted boundary: none
Main exports: Vocabulary, Vocabulary.placeIn, Vocabulary.next, Vocabulary.addUnigram,
  Vocabulary.addBigram, Vocabulary.removeBigram, Vocabulary.Within
-/
import Lexicon.Proofs.Record
import Mathlib.Algebra.GroupWithZero.Nat
import Mathlib.Data.Fintype.Basic

namespace Lexicon

/-- The words of a dictionary in the order in which they were first added, each with what is known
about it, and what is known about one word following another. -/
structure Vocabulary where
  words : List (Word × Unigram) := []
  bigrams : Std.ExtHashMap (Word × Word) BigramRecord := ∅

/-- Pairs of words are told apart by the maps of which they are keys. -/
instance Word.equivBEq_pair : EquivBEq (Word × Word) := inferInstance

instance Word.lawfulHashable_pair : LawfulHashable (Word × Word) := inferInstance

namespace Vocabulary

/-- The words alone. -/
def spelled (vocabulary : Vocabulary) : List Word := vocabulary.words.map (·.1)

/-- What is known about a word by itself. -/
def unigram? (vocabulary : Vocabulary) (word : Word) : Option Unigram :=
  (vocabulary.words.find? fun entry => entry.1 = word).map (·.2)

/-! ### Tokens -/

/-- The bytes of the record of a word. -/
def recordSize (word : Word) : Nat := 5 + 4 * word.length

/-- The bytes of the records of some words. -/
def total (words : List Word) : Nat := (words.map recordSize).sum

/-- The token of a word: the bytes of the records of the words before it. -/
def placeIn : List Word → Word → Option Nat
  | [], _ => none
  | first :: others, word =>
      if first = word then some 0 else (placeIn others word).map (recordSize first + ·)

/-- The word with a token. -/
def wordAt : List Word → (token : Nat) → Option Word
  | [], _ => none
  | first :: others, token =>
      if token = 0 then some first
      else if token < recordSize first then none
      else wordAt others (token - recordSize first)

/-! ### Queries -/

/-- The probability of a word, unless it must not be suggested. -/
def probability (vocabulary : Vocabulary) (word : Word) : Int :=
  match vocabulary.unigram? word with
  | none => noProbability
  | some unigram => if unigram.suggestible then unigram.probability else noProbability

/-- The probability of one word following another. -/
def bigramProbability (vocabulary : Vocabulary) (first second : Word) : Int :=
  match vocabulary.bigrams[(first, second)]? with
  | none => noProbability
  | some record => record.probability

/-- What is known about the words that follow a word, in the order of the words. -/
def bigramsOf (vocabulary : Vocabulary) (word : Word) : List Bigram :=
  vocabulary.spelled.filterMap fun target =>
    (vocabulary.bigrams[(word, target)]?).map fun record =>
      { target := target, probability := record.probability, history := record.history }

/-- All that is known about a word. -/
def property (vocabulary : Vocabulary) (word : Word) : Option WordProperty :=
  (vocabulary.unigram? word).map fun unigram =>
    { word := word, unigram := unigram, bigrams := vocabulary.bigramsOf word }

/-- The word at a token, and the token of the word after it; the last word is followed by the
token zero. -/
def next (vocabulary : Vocabulary) (token : Nat) : Word × Nat :=
  match wordAt vocabulary.spelled token with
  | none => ([], 0)
  | some word =>
      (word,
        if total vocabulary.spelled ≤ token + recordSize word then 0 else token + recordSize word)

/-- Questions by name: how many words and bigrams there are, and how many there may be. -/
def query (vocabulary : Vocabulary) (limits : Configuration) (question : String) : String :=
  if question = "UNIGRAM_COUNT" then toString vocabulary.words.length
  else if question = "BIGRAM_COUNT" then toString vocabulary.bigrams.size
  else if question = "MAX_UNIGRAM_COUNT" then toString limits.maxUnigrams
  else if question = "MAX_BIGRAM_COUNT" then toString limits.maxBigrams
  else ""

/-! ### Changes -/

/-- What changes are subject to, besides what is known. -/
structure Terms where
  version : FormatVersion
  limits : Configuration
  updatable : Bool

/-- Whether there may be changes at all. -/
def Terms.allow (terms : Terms) : Except Error Unit :=
  if terms.updatable then .ok () else .error .notUpdatable

/-- The bytes of the record of a unigram. -/
def unigramSize (version : FormatVersion) (unigram : Unigram) : Nat :=
  3 + (if version.hasHistory then 6 else 0) +
    (unigram.shortcuts.map fun shortcut => 2 + 4 * shortcut.target.length).sum

/-- Whether there is room for some bytes when some are in use. -/
def afford (limits : Configuration) (used requested : Nat) : Except Error Unit :=
  let capacity := min limits.capacity Dictionary.maxBufferBytes
  if used + requested > capacity then .error (.bufferFull used requested capacity) else .ok ()

/-- The bytes that are reserved for a number of keys. -/
def keyRoom (keys : Nat) : Nat := keys * Dictionary.slotsPerKey * Slot.byteSize

/-- The bytes that are reserved for a unigram: its record, and for a word that is new the record of
the word and room for each of its code points. -/
def unigramRoom (vocabulary : Vocabulary) (version : FormatVersion) (word : Word)
    (unigram : Unigram) : Nat :=
  unigramSize version unigram +
    if word ∈ vocabulary.spelled then 0 else recordSize word + keyRoom word.length

/-- Whether a unigram is accepted, when some bytes are in use. -/
def acceptUnigram (vocabulary : Vocabulary) (terms : Terms) (used : Nat) (word : Word)
    (unigram : Unigram) : Except Error Unit := do
  terms.allow
  Dictionary.checkUnigram word unigram
  if word ∉ vocabulary.spelled ∧ terms.limits.maxUnigrams ≤ vocabulary.words.length then
    .error (.limitReached .unigrams terms.limits.maxUnigrams)
  else
    afford terms.limits used (vocabulary.unigramRoom terms.version word unigram)

/-- Stores what is known about a word.  A word that is there keeps its place. -/
def store (vocabulary : Vocabulary) (word : Word) (unigram : Unigram) : Vocabulary :=
  { vocabulary with
    words :=
      if word ∈ vocabulary.spelled then
        vocabulary.words.map fun entry => if entry.1 = word then (word, unigram) else entry
      else vocabulary.words ++ [(word, unigram)] }

/-- A change that is made if it is accepted. -/
def change (vocabulary next : Vocabulary) (accepted : Except Error Unit) :
    Except Error Unit × Vocabulary :=
  match accepted with
  | .ok () => (.ok (), next)
  | .error error => (.error error, vocabulary)

/-- Adds a word, or replaces what is known about it. -/
def addUnigram (vocabulary : Vocabulary) (terms : Terms) (used : Nat) (word : Word)
    (unigram : Unigram) : Except Error Unit × Vocabulary :=
  vocabulary.change (vocabulary.store word (unigram.kept terms.version))
    (vocabulary.acceptUnigram terms used word unigram)

/-- Whether both words of a bigram are there. -/
def requireWords (vocabulary : Vocabulary) (first second : Word) : Except Error Unit :=
  if first ∈ vocabulary.spelled ∧ second ∈ vocabulary.spelled then .ok () else .error .wordNotFound

/-- The bytes that are reserved for a bigram: its record, and for one that is new room for its two
keys. -/
def bigramRoom (vocabulary : Vocabulary) (version : FormatVersion) (first second : Word) : Nat :=
  BigramRecord.size version + if (first, second) ∈ vocabulary.bigrams then 0 else keyRoom 2

/-- Whether a bigram is accepted, when some bytes are in use. -/
def acceptBigram (vocabulary : Vocabulary) (terms : Terms) (used : Nat) (first : Word)
    (bigram : Bigram) : Except Error Unit := do
  terms.allow
  Dictionary.checkBigram first bigram
  vocabulary.requireWords first bigram.target
  if (first, bigram.target) ∉ vocabulary.bigrams ∧
      terms.limits.maxBigrams ≤ vocabulary.bigrams.size then
    .error (.limitReached .bigrams terms.limits.maxBigrams)
  else
    afford terms.limits used (vocabulary.bigramRoom terms.version first bigram.target)

/-- Stores what is known about one word following another. -/
def relate (vocabulary : Vocabulary) (first second : Word) (record : BigramRecord) : Vocabulary :=
  { vocabulary with bigrams := vocabulary.bigrams.insert (first, second) record }

/-- Adds a bigram, or replaces what is known about it. -/
def addBigram (vocabulary : Vocabulary) (terms : Terms) (used : Nat) (first : Word)
    (bigram : Bigram) : Except Error Unit × Vocabulary :=
  vocabulary.change (vocabulary.relate first bigram.target (bigram.record terms.version))
    (vocabulary.acceptBigram terms used first bigram)

/-- Whether the removal of a bigram is accepted; the bigram need not be there. -/
def acceptRemoval (vocabulary : Vocabulary) (terms : Terms) (first second : Word) :
    Except Error Unit := do
  terms.allow
  Dictionary.checkWord first
  Dictionary.checkWord second
  vocabulary.requireWords first second

/-- Removes a bigram. -/
def removeBigram (vocabulary : Vocabulary) (terms : Terms) (first second : Word) :
    Except Error Unit × Vocabulary :=
  vocabulary.change { vocabulary with bigrams := vocabulary.bigrams.erase (first, second) }
    (vocabulary.acceptRemoval terms first second)

/-! ### Laws of tokens -/

section Tokens

variable {words more : List Word} {word other : Word} {token : Nat}

theorem recordSize_pos (word : Word) : 0 < recordSize word := by
  unfold recordSize
  omega

theorem recordSize_eq (terminal : Terminal) : recordSize terminal.word = terminal.size := by
  unfold recordSize Terminal.size Terminal.pointerField
  omega

@[simp] theorem total_nil : total [] = 0 := rfl

@[simp] theorem total_cons (word : Word) (words : List Word) :
    total (word :: words) = recordSize word + total words := rfl

@[simp] theorem total_append (words more : List Word) :
    total (words ++ more) = total words + total more := by
  simp [total]

theorem isSome_placeIn : (placeIn words word).isSome = true ↔ word ∈ words := by
  induction words with
  | nil => simp [placeIn]
  | cons first others ih =>
      rw [placeIn, List.mem_cons]
      by_cases same : first = word
      · simp [same]
      · rw [if_neg same, Option.isSome_map, ih]
        simp [Ne.symm same]

theorem placeIn_eq_none : placeIn words word = none ↔ word ∉ words := by
  rw [← isSome_placeIn]
  cases placeIn words word with
  | none => simp
  | some => simp

/-- A new word has the bytes before it as its token. -/
theorem placeIn_append_of_notMem (new : word ∉ words) :
    placeIn (words ++ more) word = (placeIn more word).map (total words + ·) := by
  induction words with
  | nil => simp
  | cons first others ih =>
      rw [List.mem_cons, not_or] at new
      rw [List.cons_append, placeIn, if_neg (Ne.symm new.1), ih new.2, Option.map_map, total_cons]
      congr 1
      funext place
      simp [Nat.add_assoc]

/-- A word has a token where it stands for the first time: the bytes of the records before it. -/
theorem placeIn_eq_some_iff : placeIn words word = some token ↔
    ∃ before after, words = before ++ word :: after ∧ word ∉ before ∧ token = total before := by
  constructor
  · intro place
    have member : word ∈ words := isSome_placeIn.mp (by rw [place]; rfl)
    obtain ⟨before, after, rfl, new⟩ := List.eq_append_cons_of_mem member
    rw [placeIn_append_of_notMem new, placeIn, if_pos rfl] at place
    exact ⟨before, after, rfl, new, (Option.some.inj place).symm⟩
  · rintro ⟨before, after, rfl, new, rfl⟩
    rw [placeIn_append_of_notMem new, placeIn, if_pos rfl]
    rfl

/-- The word behind some words has the bytes of their records as its token. -/
theorem wordAt_total (before : List Word) (word : Word) (after : List Word) :
    wordAt (before ++ word :: after) (total before) = some word := by
  induction before with
  | nil => rfl
  | cons first others ih =>
      have positive := recordSize_pos first
      rw [List.cons_append, total_cons, wordAt, if_neg (by omega), if_neg (by omega),
        Nat.add_sub_cancel_left, ih]

/-- At a token there is the word before which there are as many bytes of records. -/
theorem wordAt_eq_some_iff : wordAt words token = some word ↔
    ∃ before after, words = before ++ word :: after ∧ token = total before := by
  constructor
  · intro here
    induction words generalizing token with
    | nil => cases here
    | cons first others ih =>
        rw [wordAt] at here
        split at here
        next zero =>
          cases here
          exact ⟨[], others, rfl, zero⟩
        next =>
          split at here
          next => cases here
          next beyond =>
            obtain ⟨before, after, rfl, behind⟩ := ih here
            refine ⟨first :: before, after, rfl, ?_⟩
            rw [total_cons]
            omega
  · rintro ⟨before, after, rfl, rfl⟩
    exact wordAt_total before word after

/-- The record of a word ends before the records of all words do. -/
theorem placeIn_le (place : placeIn words word = some token) :
    token + recordSize word ≤ total words := by
  obtain ⟨before, after, rfl, _, rfl⟩ := placeIn_eq_some_iff.mp place
  rw [total_append, total_cons]
  omega

/-- More words behind change no token. -/
theorem placeIn_append (place : placeIn words word = some token) :
    placeIn (words ++ more) word = some token := by
  obtain ⟨before, after, rfl, new, rfl⟩ := placeIn_eq_some_iff.mp place
  exact placeIn_eq_some_iff.mpr ⟨before, after ++ more, List.append_assoc _ _ _, new, rfl⟩

/-- A token is the token of one word. -/
theorem wordAt_of_placeIn (place : placeIn words word = some token) :
    wordAt words token = some word := by
  obtain ⟨before, after, split, _, same⟩ := placeIn_eq_some_iff.mp place
  exact wordAt_eq_some_iff.mpr ⟨before, after, split, same⟩

theorem placeIn_inj (place : placeIn words word = some token)
    (same : placeIn words other = some token) : word = other := by
  have first := wordAt_of_placeIn place
  rw [wordAt_of_placeIn same] at first
  exact (Option.some.inj first).symm

/-- More words behind leave a word at its token. -/
theorem wordAt_append (here : wordAt words token = some word) :
    wordAt (words ++ more) token = some word := by
  obtain ⟨before, after, rfl, rfl⟩ := wordAt_eq_some_iff.mp here
  exact wordAt_eq_some_iff.mpr ⟨before, after ++ more, List.append_assoc _ _ _, rfl⟩

/-- The word at a token has it as its own, where no word is repeated. -/
theorem placeIn_of_wordAt (distinct : words.Nodup) (here : wordAt words token = some word) :
    placeIn words word = some token := by
  obtain ⟨before, after, rfl, rfl⟩ := wordAt_eq_some_iff.mp here
  obtain ⟨_, _, apart⟩ := List.nodup_append.mp distinct
  exact placeIn_eq_some_iff.mpr
    ⟨before, after, rfl, fun among => apart word among word List.mem_cons_self rfl, rfl⟩

/-- Words in their order have growing tokens. -/
theorem placeIn_increasing (distinct : words.Nodup) :
    words.Pairwise fun first second => ∀ {low high : Nat}, placeIn words first = some low →
      placeIn words second = some high → low < high := by
  induction words with
  | nil => exact List.Pairwise.nil
  | cons first others ih =>
      obtain ⟨apart, distinct⟩ := List.nodup_cons.mp distinct
      have positive := recordSize_pos first
      refine List.pairwise_cons.mpr ⟨?_, ?_⟩
      · intro other among low high here there
        have differ : first ≠ other := by
          rintro rfl
          exact apart among
        rw [placeIn, if_pos rfl] at here
        rw [placeIn, if_neg differ] at there
        obtain ⟨further, _, rfl⟩ := Option.map_eq_some_iff.mp there
        cases here
        omega
      · refine List.Pairwise.imp_of_mem ?_ (ih distinct)
        intro second third amongSecond amongThird ordered low high here there
        have differSecond : first ≠ second := by
          rintro rfl
          exact apart amongSecond
        have differThird : first ≠ third := by
          rintro rfl
          exact apart amongThird
        rw [placeIn, if_neg differSecond] at here
        rw [placeIn, if_neg differThird] at there
        obtain ⟨lower, placeSecond, rfl⟩ := Option.map_eq_some_iff.mp here
        obtain ⟨upper, placeThird, rfl⟩ := Option.map_eq_some_iff.mp there
        have less := ordered placeSecond placeThird
        omega

/-- Where a record ends another one begins, unless it was the last. -/
theorem isSome_wordAt_next (here : wordAt words token = some word)
    (inside : token + recordSize word < total words) :
    (wordAt words (token + recordSize word)).isSome = true := by
  obtain ⟨before, after, rfl, rfl⟩ := wordAt_eq_some_iff.mp here
  have ends : total (before ++ [word]) = total before + recordSize word := by simp
  cases after with
  | nil =>
      rw [ends] at inside
      exact absurd inside (Nat.lt_irrefl _)
  | cons next rest =>
      rw [List.append_cons, ← ends, wordAt_total]
      rfl

end Tokens

/-! ### Laws of unigrams -/

section Unigrams

variable {vocabulary : Vocabulary} {word : Word} {unigram : Unigram}

theorem unigram?_eq_some (distinct : vocabulary.spelled.Nodup) :
    vocabulary.unigram? word = some unigram ↔ (word, unigram) ∈ vocabulary.words := by
  unfold unigram? spelled at *
  generalize vocabulary.words = words at *
  induction words with
  | nil => simp
  | cons first others ih =>
      rw [List.map_cons, List.nodup_cons] at distinct
      rw [List.find?_cons, List.mem_cons]
      by_cases same : first.1 = word
      · subst same
        simp only [decide_true, Option.map_some, Option.some.injEq]
        constructor
        · rintro rfl
          exact Or.inl rfl
        · rintro (equal | later)
          · rw [← equal]
          · exact absurd (List.mem_map.mpr ⟨_, later, rfl⟩) distinct.1
      · simp only [same, decide_false]
        rw [ih distinct.2]
        constructor
        · exact Or.inr
        · rintro (equal | later)
          · exact absurd (congrArg Prod.fst equal).symm same
          · exact later

theorem unigram?_eq_none : vocabulary.unigram? word = none ↔ word ∉ vocabulary.spelled := by
  simp only [unigram?, spelled, Option.map_eq_none_iff, List.find?_eq_none, List.mem_map,
    decide_eq_true_eq]
  constructor
  · rintro apart ⟨entry, among, same⟩
    exact apart entry among same
  · intro missing entry among same
    exact missing ⟨entry, among, same⟩

theorem isSome_unigram? : (vocabulary.unigram? word).isSome = true ↔ word ∈ vocabulary.spelled := by
  cases found : vocabulary.unigram? word with
  | none => simpa using unigram?_eq_none.mp found
  | some unigram =>
      simp only [Option.isSome_some, true_iff]
      by_contra missing
      rw [unigram?_eq_none.mpr missing] at found
      cases found

theorem length_spelled (vocabulary : Vocabulary) :
    vocabulary.spelled.length = vocabulary.words.length := by
  simp [spelled]

/-- Storing adds a word behind the others, or leaves all where they are. -/
theorem spelled_store (vocabulary : Vocabulary) (word : Word) (unigram : Unigram) :
    (vocabulary.store word unigram).spelled =
      if word ∈ vocabulary.spelled then vocabulary.spelled else vocabulary.spelled ++ [word] := by
  unfold store
  split
  next =>
    simp only [spelled, List.map_map]
    apply List.map_congr_left
    intro entry _
    simp only [Function.comp_apply]
    split
    next same => exact same.symm
    next => rfl
  next => simp [spelled]

theorem nodup_spelled_store (distinct : vocabulary.spelled.Nodup) (word : Word)
    (unigram : Unigram) : (vocabulary.store word unigram).spelled.Nodup := by
  rw [spelled_store]
  split
  next => exact distinct
  next new => exact List.nodup_append.mpr ⟨distinct, List.nodup_singleton _, by
    rintro other among _ only rfl
    rw [List.mem_singleton.mp only] at among
    exact new among⟩

end Unigrams

/-! ### Limits -/

/-- There are no more words and bigrams than there may be. -/
structure Within (vocabulary : Vocabulary) (limits : Configuration) : Prop where
  words : vocabulary.words.length ≤ limits.maxUnigrams
  bigrams : vocabulary.bigrams.size ≤ limits.maxBigrams

namespace Within

variable {vocabulary : Vocabulary} {terms : Terms}

/-- Adding a word leaves the vocabulary within its limits. -/
theorem addUnigram (within : vocabulary.Within terms.limits) (used : Nat) (word : Word)
    (unigram : Unigram) :
    (vocabulary.addUnigram terms used word unigram).2.Within terms.limits := by
  rw [Vocabulary.addUnigram]
  cases accepted : vocabulary.acceptUnigram terms used word unigram with
  | error error => exact within
  | ok =>
      obtain ⟨_, _, accepted⟩ := exists_of_bind accepted
      obtain ⟨_, _, accepted⟩ := exists_of_bind accepted
      refine ⟨?_, within.bigrams⟩
      show (vocabulary.store word (unigram.kept terms.version)).words.length ≤
        terms.limits.maxUnigrams
      rw [store]
      by_cases member : word ∈ vocabulary.spelled
      · rw [if_pos member, List.length_map]
        exact within.words
      · rw [if_neg member, List.length_append, List.length_singleton]
        split at accepted
        next => cases accepted
        next few => exact Nat.lt_of_not_le fun full => few ⟨member, full⟩

/-- Adding a bigram leaves the vocabulary within its limits. -/
theorem addBigram (within : vocabulary.Within terms.limits) (used : Nat) (first : Word)
    (bigram : Bigram) :
    (vocabulary.addBigram terms used first bigram).2.Within terms.limits := by
  rw [Vocabulary.addBigram]
  cases accepted : vocabulary.acceptBigram terms used first bigram with
  | error error => exact within
  | ok =>
      obtain ⟨_, _, accepted⟩ := exists_of_bind accepted
      obtain ⟨_, _, accepted⟩ := exists_of_bind accepted
      obtain ⟨_, _, accepted⟩ := exists_of_bind accepted
      refine ⟨within.words, ?_⟩
      show (vocabulary.bigrams.insert (first, bigram.target) _).size ≤ terms.limits.maxBigrams
      rw [Std.ExtHashMap.size_insert]
      by_cases member : (first, bigram.target) ∈ vocabulary.bigrams
      · rw [if_pos member]
        exact within.bigrams
      · rw [if_neg member]
        split at accepted
        next => cases accepted
        next few => exact Nat.lt_of_not_le fun full => few ⟨member, full⟩

/-- Removing a bigram leaves the vocabulary within its limits. -/
theorem removeBigram (within : vocabulary.Within terms.limits) (first second : Word) :
    (vocabulary.removeBigram terms first second).2.Within terms.limits := by
  rw [Vocabulary.removeBigram]
  cases vocabulary.acceptRemoval terms first second with
  | error error => exact within
  | ok => exact ⟨within.words, Nat.le_trans Std.ExtHashMap.size_erase_le within.bigrams⟩

end Within

end Vocabulary

end Lexicon

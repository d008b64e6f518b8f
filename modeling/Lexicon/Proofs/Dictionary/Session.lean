/-
Module: Lexicon.Proofs.Dictionary.Session
Layer: Proofs
Purpose: A dictionary answers every sequence of requests as a list of words and a finite map of
  bigrams do, and never meets damage.
Imports: Lexicon.Proofs.Dictionary.Relations, Lexicon.Proofs.Dictionary.Walk, Mathlib.Data.List.GetD
Trusted boundary: none
Main exports: Dictionary.Request, Dictionary.Session, Vocabulary.Session,
  Dictionary.Session.Speaks, Dictionary.Session.replies_eq_vocabulary
-/
import Lexicon.Proofs.Dictionary.Relations
import Lexicon.Proofs.Dictionary.Walk
import Mathlib.Data.List.GetD

namespace Lexicon

open Vocabulary

namespace Dictionary

/-- A request to a dictionary.  A walk goes on from a token that is named by its number among those
that were returned before, behind the token zero; any other number stands for zero. -/
inductive Request where
  | addUnigram (word : Word) (unigram : Unigram)
  | addBigram (first : Word) (bigram : Bigram)
  | removeBigram (first second : Word)
  | probability (word : Word)
  | bigramProbability (first second : Word)
  | property (word : Word)
  | next (token : Nat)
  | query (question : String)

/-- The answer to a request. -/
inductive Reply where
  | changed (outcome : Except Error Unit)
  | probability (answer : Int)
  | property (answer : Option WordProperty)
  | next (word : Word) (token : Nat)
  | text (answer : String)
deriving DecidableEq

end Dictionary

/-! ### Vocabularies in use -/

/-- A vocabulary, and the tokens that were returned. -/
structure Vocabulary.Session where
  vocabulary : Vocabulary
  tokens : List Nat

namespace Vocabulary.Session

/-- Nothing is known, and a walk can only start. -/
def start : Session := ⟨{}, [0]⟩

/-- Takes over what a change leaves behind. -/
def changed (session : Session) (outcome : Except Error Unit × Vocabulary) :
    Dictionary.Reply × Session :=
  (.changed outcome.1, ⟨outcome.2, session.tokens⟩)

/-- Answers a request that is made when some bytes are in use. -/
def step (terms : Terms) (session : Session) (used : Nat) :
    Dictionary.Request → Dictionary.Reply × Session
  | .addUnigram word unigram =>
      session.changed (session.vocabulary.addUnigram terms used word unigram)
  | .addBigram first bigram =>
      session.changed (session.vocabulary.addBigram terms used first bigram)
  | .removeBigram first second =>
      session.changed (session.vocabulary.removeBigram terms first second)
  | .probability word => (.probability (session.vocabulary.probability word), session)
  | .bigramProbability first second =>
      (.probability (session.vocabulary.bigramProbability first second), session)
  | .property word => (.property (session.vocabulary.property word), session)
  | .next token =>
      let (word, token) := session.vocabulary.next (session.tokens.getD token 0)
      (.next word token, ⟨session.vocabulary, session.tokens ++ [token]⟩)
  | .query question => (.text (session.vocabulary.query terms.limits question), session)

/-- Answers requests one after the other, each with the bytes that are in use when it is made. -/
def run (terms : Terms) (session : Session) :
    List (Dictionary.Request × Nat) → List Dictionary.Reply × Session
  | [] => ([], session)
  | (request, used) :: requests =>
      let (reply, session) := session.step terms used request
      let (replies, session) := run terms session requests
      (reply :: replies, session)

/-- Answering a request leaves a vocabulary within its limits. -/
theorem within_step {terms : Terms} {session : Session}
    (within : session.vocabulary.Within terms.limits) (used : Nat) (request : Dictionary.Request) :
    (session.step terms used request).2.vocabulary.Within terms.limits := by
  cases request with
  | addUnigram word unigram => exact within.addUnigram used word unigram
  | addBigram first bigram => exact within.addBigram used first bigram
  | removeBigram first second => exact within.removeBigram first second
  | probability | bigramProbability | property | next | query => exact within

theorem within_run {terms : Terms} {session : Session}
    (within : session.vocabulary.Within terms.limits) (requests : List (Dictionary.Request × Nat)) :
    (session.run terms requests).2.vocabulary.Within terms.limits := by
  induction requests generalizing session with
  | nil => exact within
  | cons request requests ih => exact ih (within_step within request.2 request.1)

end Vocabulary.Session

/-! ### Dictionaries in use -/

namespace Dictionary

/-- A dictionary, and the tokens that were returned. -/
structure Session where
  dictionary : Dictionary
  tokens : List Nat

namespace Session

/-- A dictionary of which no token is known but zero. -/
def start (dictionary : Dictionary) : Session := ⟨dictionary, [0]⟩

/-- Makes a change. -/
def change (session : Session) (change : Mutation Dictionary Unit) : Reply × Session :=
  let (outcome, dictionary) := change.apply session.dictionary
  (.changed outcome, ⟨dictionary, session.tokens⟩)

/-- Reads, and remembers the damage that the reading meets. -/
def read {α : Type} (session : Session) (reading : Reading α) (reply : α → Reply) :
    Reply × Session :=
  let (answer, dictionary) := session.dictionary.note reading
  (reply answer, ⟨dictionary, session.tokens⟩)

/-- Answers a request. -/
def step (session : Session) : Request → Reply × Session
  | .addUnigram word unigram => session.change (Dictionary.addUnigram word unigram)
  | .addBigram first bigram => session.change (Dictionary.addBigram first bigram)
  | .removeBigram first second => session.change (Dictionary.removeBigram first second)
  | .probability word => session.read (session.dictionary.probability word) .probability
  | .bigramProbability first second =>
      session.read (session.dictionary.bigramProbability first second) .probability
  | .property word => session.read (session.dictionary.property word) .property
  | .next token =>
      let ((word, token), dictionary) :=
        session.dictionary.note (session.dictionary.nextWord (session.tokens.getD token 0))
      (.next word token, ⟨dictionary, session.tokens ++ [token]⟩)
  | .query question => (.text (session.dictionary.query question), session)

/-- Answers requests one after the other. -/
def run (session : Session) : List Request → List Reply × Session
  | [] => ([], session)
  | request :: requests =>
      let (reply, session) := session.step request
      let (replies, session) := run session requests
      (reply :: replies, session)

/-- The requests, each with the bytes that are in use when it is made. -/
def weigh (session : Session) : List Request → List (Request × Nat)
  | [] => []
  | request :: requests =>
      (request, session.dictionary.usedBytes) :: weigh (session.step request).2 requests

/-! ### Both side by side -/

/-- A walk can start where there is a word, and where there is none it is over. -/
theorem walkable {vocabulary : Vocabulary} {token : Nat}
    (known : token = 0 ∨ (wordAt vocabulary.spelled token).isSome = true) :
    total vocabulary.spelled ≤ token ∨ (wordAt vocabulary.spelled token).isSome = true := by
  rcases known with rfl | some
  · cases words : vocabulary.spelled with
    | nil => exact Or.inl (Nat.le_refl 0)
    | cons first others => exact Or.inr rfl
  · exact Or.inr some

/-- A session says what a vocabulary says, and knows the same tokens; at each of them there is a
word, unless it is zero. -/
structure Speaks (session : Session) (model : Vocabulary.Session) : Prop where
  represents : session.dictionary.Represents model.vocabulary
  tokens : session.tokens = model.tokens
  valid : ∀ token ∈ model.tokens, token = 0 ∨ (wordAt model.vocabulary.spelled token).isSome = true

namespace Speaks

variable {session : Session} {model : Vocabulary.Session}

/-- Words are only added behind the others, and so there is still a word at each token. -/
theorem valid_append (speaks : session.Speaks model) {vocabulary : Vocabulary}
    {more : List Word} (further : vocabulary.spelled = model.vocabulary.spelled ++ more) :
    ∀ token ∈ model.tokens, token = 0 ∨ (wordAt vocabulary.spelled token).isSome = true := by
  intro token among
  rcases speaks.valid token among with zero | some
  · exact Or.inl zero
  · obtain ⟨word, here⟩ := Option.isSome_iff_exists.mp some
    rw [further, wordAt_append here]
    exact Or.inr rfl

/-- Where a walk goes on there is a word, unless it starts. -/
theorem valid_getD (speaks : session.Speaks model) (number : Nat) :
    model.tokens.getD number 0 = 0 ∨
      (wordAt model.vocabulary.spelled (model.tokens.getD number 0)).isSome = true := by
  by_cases inside : number < model.tokens.length
  · rw [List.getD_eq_getElem _ _ inside]
    exact speaks.valid _ (List.getElem_mem inside)
  · rw [List.getD_eq_default _ _ (Nat.le_of_not_lt inside)]
    exact Or.inl rfl

/-- A change that is accepted when the vocabulary accepts it leaves both saying the same. -/
theorem change (speaks : session.Speaks model) {change : Mutation Dictionary Unit}
    {next : Vocabulary} {accepted : Except Error Unit} {room : Nat} {more : List Word}
    (decided : Decides accepted change session.dictionary next room)
    (further : next.spelled = model.vocabulary.spelled ++ more) :
    (session.change change).1 = (model.changed (model.vocabulary.change next accepted)).1 ∧
      (session.change change).2.Speaks (model.changed (model.vocabulary.change next accepted)).2 ∧
      (session.change change).2.dictionary.terms = session.dictionary.terms := by
  cases accepted with
  | error error =>
      rw [Session.change, show change.apply session.dictionary = _ from decided]
      exact ⟨rfl, ⟨speaks.represents, speaks.tokens, speaks.valid⟩, rfl⟩
  | ok =>
      obtain ⟨after, outcome, changed⟩ := decided
      rw [Session.change, outcome]
      exact ⟨rfl, ⟨changed.represents, speaks.tokens, speaks.valid_append further⟩, changed.terms⟩

/-- A reading without damage changes nothing. -/
theorem read {α : Type} (speaks : session.Speaks model) {reading : Reading α} {answer : α}
    (same : reading = pure answer) (reply : α → Reply) :
    (session.read reading reply).1 = reply answer ∧ (session.read reading reply).2.Speaks model ∧
      (session.read reading reply).2.dictionary.terms = session.dictionary.terms := by
  subst same
  rw [Session.read, note_of_undamaged _ rfl]
  exact ⟨rfl, speaks, rfl⟩

/-- Both answer a request in the same way, and say the same afterwards. -/
theorem step (speaks : session.Speaks model) (request : Request) :
    (session.step request).1 =
        (model.step session.dictionary.terms session.dictionary.usedBytes request).1 ∧
      (session.step request).2.Speaks
        (model.step session.dictionary.terms session.dictionary.usedBytes request).2 ∧
      (session.step request).2.dictionary.terms = session.dictionary.terms := by
  have represents := speaks.represents
  cases request with
  | addUnigram word unigram =>
      rw [Session.step, Vocabulary.Session.step, Vocabulary.addUnigram]
      have further : (model.vocabulary.store word (unigram.kept session.dictionary.version)).spelled =
          model.vocabulary.spelled ++ if word ∈ model.vocabulary.spelled then [] else [word] := by
        rw [spelled_store]
        split
        next => rw [List.append_nil]
        next => rfl
      exact speaks.change (represents.addUnigram word unigram) further
  | addBigram first bigram =>
      rw [Session.step, Vocabulary.Session.step, Vocabulary.addBigram]
      exact speaks.change (represents.addBigram first bigram) (List.append_nil _).symm
  | removeBigram first second =>
      rw [Session.step, Vocabulary.Session.step, Vocabulary.removeBigram]
      exact speaks.change (represents.removeBigram first second) (List.append_nil _).symm
  | probability word => exact speaks.read (represents.probability word) .probability
  | bigramProbability first second =>
      exact speaks.read (represents.bigramProbability first second) .probability
  | property word => exact speaks.read (represents.property word) .property
  | next token =>
      rw [Session.step, Vocabulary.Session.step, speaks.tokens,
        represents.nextWord (walkable (speaks.valid_getD token)), note_of_undamaged _ rfl]
      refine ⟨rfl, ⟨represents, rfl, ?_⟩, rfl⟩
      intro other among
      rcases List.mem_append.mp among with old | new
      · exact speaks.valid other old
      · rw [List.mem_singleton.mp new]
        exact known_next _ _
  | query question =>
      refine ⟨?_, speaks, rfl⟩
      rw [Session.step, Vocabulary.Session.step, represents.query]
      rfl

/-- Both answer all requests in the same way, and say the same in the end. -/
theorem run (speaks : session.Speaks model) (requests : List Request) :
    (session.run requests).1 =
        (model.run session.dictionary.terms (session.weigh requests)).1 ∧
      (session.run requests).2.Speaks
        (model.run session.dictionary.terms (session.weigh requests)).2 ∧
      (session.run requests).2.dictionary.terms = session.dictionary.terms := by
  induction requests generalizing session model with
  | nil => exact ⟨rfl, speaks, rfl⟩
  | cons request requests ih =>
      obtain ⟨reply, next, same⟩ := speaks.step request
      obtain ⟨replies, last, kept⟩ := ih next
      rw [same] at replies last kept
      refine ⟨?_, last, kept⟩
      rw [Session.run, weigh, Vocabulary.Session.run]
      dsimp only
      rw [reply, replies]

end Speaks

/-- A dictionary that was created accepts changes, and says nothing. -/
theorem speaks_start {number : Nat} {locale : String} {attributes : Attributes}
    {limits : Configuration} {dictionary : Dictionary}
    (created : create number locale attributes limits = .ok dictionary) :
    (start dictionary).Speaks .start ∧
      dictionary.terms = ⟨dictionary.version, limits, true⟩ := by
  rw [create] at created
  cases supported : FormatVersion.ofNumber number with
  | error error =>
      rw [supported] at created
      cases created
  | ok version =>
      rw [supported] at created
      cases created
      refine ⟨⟨represents_empty _ _, rfl, ?_⟩, rfl⟩
      intro token among
      exact Or.inl (List.mem_singleton.mp among)

/-- A dictionary that was created answers all requests as a list of distinct words and a finite map
of bigrams do.  A change is accepted exactly when its arguments are valid, its words are there, and
the limits and the bytes in use afford it; else it changes nothing.  No damage is ever met. -/
theorem replies_eq_vocabulary {number : Nat} {locale : String} {attributes : Attributes}
    {limits : Configuration} {dictionary : Dictionary}
    (created : create number locale attributes limits = .ok dictionary)
    (requests : List Request) :
    ((start dictionary).run requests).1 =
        (Vocabulary.Session.start.run ⟨dictionary.version, limits, true⟩
          ((start dictionary).weigh requests)).1 ∧
      ((start dictionary).run requests).2.dictionary.damaged = false := by
  obtain ⟨speaks, terms⟩ := speaks_start created
  obtain ⟨replies, last, _⟩ := speaks.run requests
  rw [show (start dictionary).dictionary.terms = _ from terms] at replies
  exact ⟨replies, last.represents.undamaged⟩

/-- A word is added twice, and is then asked for together with its beginning. -/
def repeating : List Request :=
  [.addUnigram [97, 98] { probability := 7 }, .addUnigram [97, 98] { probability := 8 },
    .removeBigram [97, 98] [97], .probability [97, 98], .probability [97], .next 0]

/-- What is known about a word is replaced, and its beginning is no word. -/
theorem replies_eq_vocabulary_repeating :
    create 403 "en" default .standard = .ok (empty ⟨.historical, "en", default⟩ .standard) ∧
      ((start (empty ⟨.historical, "en", default⟩ .standard)).run repeating).1 =
        [.changed (.ok ()), .changed (.ok ()), .changed (.error .wordNotFound), .probability 8,
          .probability noProbability, .next [97, 98] 0] := by
  have created :
      create 403 "en" default .standard = .ok (empty ⟨.historical, "en", default⟩ .standard) := rfl
  exact ⟨created, (replies_eq_vocabulary created repeating).1.trans rfl⟩

end Session

end Dictionary

end Lexicon

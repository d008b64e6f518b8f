/-
Module: Lexicon.Proofs.Dictionary.Chronicle
Layer: Proofs
Purpose: The history of a dictionary, kept beside it: what it was taught, with the words in the order in
  which they were first added, and the tokens that its walks returned.  It says what it was taught, and
  each token still leads behind the word with which it was returned.
Imports: Lexicon.Proofs.Dictionary.Accounts, Lexicon.Proofs.Dictionary.Canonical,
  Lexicon.Proofs.Dictionary.Damage, Lexicon.Proofs.Dictionary.Indistinct
Trusted boundary: none
Main exports: Vocabulary.learn, Dictionary.Session.learn, Vocabulary.Leads, Dictionary.Chronicle,
  Dictionary.Chronicle.represents, Dictionary.Chronicle.leads, Dictionary.Chronicle.drive,
  Dictionary.Chronicle.exists_opened, Dictionary.Genuine.exists_chronicle
-/
import Lexicon.Proofs.Dictionary.Accounts
import Lexicon.Proofs.Dictionary.Canonical
import Lexicon.Proofs.Dictionary.Damage
import Lexicon.Proofs.Dictionary.Indistinct

namespace Lexicon

open Vocabulary

/-! ### What is learnt -/

/-- What is known after a request was accepted. -/
def Vocabulary.learn (vocabulary : Vocabulary) (version : FormatVersion) :
    Dictionary.Request → Vocabulary
  | .addUnigram word unigram => vocabulary.store word (unigram.kept version)
  | .addBigram first bigram => vocabulary.relate first bigram.target (bigram.record version)
  | .removeBigram first second =>
      { vocabulary with bigrams := vocabulary.bigrams.erase (first, second) }
  | .probability _ | .bigramProbability _ _ | .property _ | .next _ | .query _ => vocabulary

/-- Words only come behind the others. -/
theorem Vocabulary.exists_spelled_learn (vocabulary : Vocabulary) (version : FormatVersion)
    (request : Dictionary.Request) :
    ∃ more, (vocabulary.learn version request).spelled = vocabulary.spelled ++ more := by
  cases request with
  | addUnigram word unigram =>
      refine ⟨if word ∈ vocabulary.spelled then [] else [word], ?_⟩
      rw [learn, spelled_store]
      split
      next => rw [List.append_nil]
      next => rfl
  | addBigram | removeBigram | probability | bigramProbability | property | next | query =>
      exact ⟨[], (List.append_nil _).symm⟩

namespace Dictionary

namespace Session

/-- What is known after some requests: each one that is accepted changes it. -/
def learn (session : Session) (vocabulary : Vocabulary) : List Request → Vocabulary
  | [] => vocabulary
  | request :: requests =>
      let (reply, next) := session.step request
      let accepted := reply = .changed (.ok ())
      next.learn
        (if accepted then vocabulary.learn session.dictionary.version request else vocabulary) requests

theorem exists_spelled_learn (requests : List Request) :
    ∀ (session : Session) (vocabulary : Vocabulary),
      ∃ more, (session.learn vocabulary requests).spelled = vocabulary.spelled ++ more := by
  induction requests with
  | nil => exact fun _ vocabulary => ⟨[], (List.append_nil _).symm⟩
  | cons request requests ih =>
      intro session vocabulary
      rw [learn]
      dsimp only
      split
      next =>
        obtain ⟨here, one⟩ := vocabulary.exists_spelled_learn session.dictionary.version request
        obtain ⟨more, rest⟩ := ih (session.step request).2
          (vocabulary.learn session.dictionary.version request)
        exact ⟨here ++ more, by rw [rest, one, List.append_assoc]⟩
      next => exact ih _ vocabulary

end Session

/-- The requests that an operation makes.  Those of a batch are the requests of the entries that are
processed. -/
def Operation.requests (dictionary : Dictionary) : Operation → List Request
  | .request asked => [asked]
  | .addEntries entries start =>
      ((entries.drop start).take ((dictionary.addEntries entries start).1 - start)).flatMap
        BatchEntry.requests
  | _ => []

namespace Session

variable {session : Session} {vocabulary : Vocabulary}

/-- Processing entries is answering the requests that they stand for. -/
theorem run_addEntriesFrom (entries : List BatchEntry) :
    ∀ (index : Nat) (session : Session),
      index ≤ (addEntriesFrom index entries session.dictionary).1 ∧
        session.goOn (addEntriesFrom index entries session.dictionary).2 =
          (session.run ((entries.take
            ((addEntriesFrom index entries session.dictionary).1 - index)).flatMap
              BatchEntry.requests)).2 := by
  induction entries with
  | nil => exact fun index session => ⟨Nat.le_refl index, by rw [List.take_nil]; rfl⟩
  | cons entry entries ih =>
      intro index session
      have here := run_requests session entry
      rw [addEntriesFrom]
      split
      next =>
        refine ⟨Nat.le_succ index, ?_⟩
        rw [Nat.add_sub_cancel_left, List.take_succ_cons, List.take_zero, List.flatMap_singleton]
        exact here.symm
      next =>
        obtain ⟨further, rest⟩ := ih (index + 1) (session.goOn (session.dictionary.addEntry entry))
        change index + 1 ≤ (addEntriesFrom (index + 1) entries
          (session.dictionary.addEntry entry)).1 at further
        change session.goOn (addEntriesFrom (index + 1) entries
          (session.dictionary.addEntry entry)).2 = _ at rest
        -- One entry more was processed than were from the next index on.
        have count : (addEntriesFrom (index + 1) entries (session.dictionary.addEntry entry)).1 -
            index = (addEntriesFrom (index + 1) entries
              (session.dictionary.addEntry entry)).1 - (index + 1) + 1 := by omega
        refine ⟨Nat.le_of_succ_le further, ?_⟩
        rw [count, List.take_succ_cons, List.flatMap_cons, run_append, here]
        exact rest

theorem perform_addEntries (session : Session) (entries : List BatchEntry) (start : Nat) :
    session.perform (.addEntries entries start) =
      (session.run (Operation.requests session.dictionary (.addEntries entries start))).2 := by
  rw [perform, Operation.requests, addEntries]
  split
  next beyond =>
    rw [List.drop_eq_nil_of_le beyond, List.take_nil]
    rfl
  next => exact (run_addEntriesFrom (entries.drop start) start session).2

/-! ### What is represented -/

/-- A change that is decided teaches what it should, also where damage is noted. -/
theorem learnt_of_decides {dictionary : Dictionary} {change : Mutation Dictionary Unit}
    {accepted : Except Error Unit} {next : Vocabulary} {room : Nat} (heedless : Heedless change)
    (represents : dictionary.content.Represents dictionary.version vocabulary)
    (decided : Decides accepted change dictionary.cleared next room) :
    (change.apply dictionary).2.content.Represents (change.apply dictionary).2.version
      (if (change.apply dictionary).1 = .ok () then next else vocabulary) := by
  obtain ⟨answer, _⟩ := heedless.apply_cleared dictionary
  obtain ⟨header, content⟩ := heedless.cleared dictionary
  rw [answer, content, Dictionary.version, header]
  cases accepted with
  | error error =>
      rw [show change.apply dictionary.cleared = _ from decided, if_neg (fun same => by cases same)]
      exact represents
  | ok =>
      obtain ⟨after, done, changed⟩ := decided
      rw [done, if_pos rfl]
      exact changed.represents.content

/-- A request teaches what it should if it is accepted, and nothing else. -/
theorem learnt_step
    (represents : session.dictionary.content.Represents session.dictionary.version vocabulary)
    (request : Request) :
    (session.step request).2.dictionary.content.Represents
      (session.step request).2.dictionary.version
      (if (session.step request).1 = .changed (.ok ()) then
        vocabulary.learn session.dictionary.version request else vocabulary) := by
  have clear : session.dictionary.cleared.Represents vocabulary := ⟨represents, rfl⟩
  cases request with
  | addUnigram word unigram =>
      simp only [step, change, Vocabulary.learn, Reply.changed.injEq]
      exact learnt_of_decides (.addUnigram word unigram) represents (clear.addUnigram word unigram)
  | addBigram first bigram =>
      simp only [step, change, Vocabulary.learn, Reply.changed.injEq]
      exact learnt_of_decides (.addBigram first bigram) represents (clear.addBigram first bigram)
  | removeBigram first second =>
      simp only [step, change, Vocabulary.learn, Reply.changed.injEq]
      exact learnt_of_decides (.removeBigram first second) represents
        (clear.removeBigram first second)
  | probability | bigramProbability | property | next | query =>
      simp only [Vocabulary.learn, ite_self]
      exact represents

theorem learnt_run (requests : List Request) : ∀ {session : Session} {vocabulary : Vocabulary},
    session.dictionary.content.Represents session.dictionary.version vocabulary →
      (session.run requests).2.dictionary.content.Represents
        (session.run requests).2.dictionary.version (session.learn vocabulary requests) := by
  induction requests with
  | nil => exact fun represents => represents
  | cons request requests ih => exact fun represents => ih (learnt_step represents request)

/-- Whatever is done teaches what its requests teach. -/
theorem learnt_perform
    (represents : session.dictionary.content.Represents session.dictionary.version vocabulary)
    (operation : Operation) :
    (session.perform operation).dictionary.content.Represents
      (session.perform operation).dictionary.version
      (session.learn vocabulary (operation.requests session.dictionary)) := by
  cases operation with
  | request request => exact learnt_run [request] represents
  | addEntries entries start =>
      rw [perform_addEntries]
      exact learnt_run _ represents
  | completions | suggest | predict => exact represents
  | flushCompacted directory name =>
      cases damaged : session.dictionary.damaged with
      | false =>
          have clear : session.dictionary.Represents vocabulary := ⟨represents, damaged⟩
          exact (clear.flushCompacted directory name).1.content
      | true =>
          rw [perform, flushCompacted_of_damaged damaged]
          exact represents
  | migrate directory target versionNumber partialOutput =>
      have noted := migrate_noted session.dictionary directory target versionNumber partialOutput
      rw [perform, goOn]
      dsimp only
      rw [Dictionary.version, noted.header, noted.content]
      exact represents

end Session

/-! ### Histories -/

/-- The history of a dictionary: what it was taught since it was created, with the words in the order
in which they were first added, and what walks returned, each word with the token behind it.  A walk
starts at zero or goes on from any token that was returned before.  Between its steps anything may be
done, also with tokens that nobody returned; the dictionary may be stored and opened again. -/
inductive Chronicle : Dictionary → Vocabulary → List (Word × Nat) → Prop where
  | created {number : Nat} {locale : String} {attributes : Attributes} {limits : Configuration}
      {dictionary : Dictionary} (created : create number locale attributes limits = .ok dictionary) :
      Chronicle dictionary {} []
  | opened {source opened : Dictionary} {vocabulary : Vocabulary} {places : List (Word × Nat)}
      (chronicle : Chronicle source vocabulary places) (reopened : Reopened source opened) :
      Chronicle opened vocabulary places
  | performed {dictionary : Dictionary} {vocabulary : Vocabulary} {places : List (Word × Nat)}
      (chronicle : Chronicle dictionary vocabulary places) (tokens : List Nat)
      (operation : Operation) :
      Chronicle ((Session.mk dictionary tokens).perform operation).dictionary
        ((Session.mk dictionary tokens).learn vocabulary (operation.requests dictionary)) places
  | walked {dictionary : Dictionary} {vocabulary : Vocabulary} {places : List (Word × Nat)}
      {token : Nat} (chronicle : Chronicle dictionary vocabulary places)
      (known : token = 0 ∨ token ∈ places.map (·.2)) :
      Chronicle (dictionary.note (dictionary.nextWord token)).2 vocabulary
        ((dictionary.nextWord token).value :: places)

end Dictionary

/-- A token is the place behind a word, and there are more words. -/
def Vocabulary.Leads (vocabulary : Vocabulary) (word : Word) (token : Nat) : Prop :=
  ∃ before after, vocabulary.spelled = before ++ word :: after ∧ after ≠ [] ∧
    token = total (before ++ [word])

namespace Vocabulary

variable {vocabulary next : Vocabulary} {word : Word} {token : Nat}

/-- More words behind leave a token where it is. -/
theorem Leads.append {more : List Word} (leads : vocabulary.Leads word token)
    (further : next.spelled = vocabulary.spelled ++ more) : next.Leads word token := by
  obtain ⟨before, after, split, some, place⟩ := leads
  refine ⟨before, after ++ more, ?_, fun none => some (List.append_eq_nil_iff.mp none).1, place⟩
  rw [further, split, List.append_assoc, List.cons_append]

/-- A walk can go on from there. -/
theorem Leads.walkable (leads : vocabulary.Leads word token) :
    (wordAt vocabulary.spelled token).isSome = true := by
  obtain ⟨before, after, split, some, rfl⟩ := leads
  obtain ⟨follower, after, rfl⟩ := List.exists_cons_of_ne_nil some
  have here := wordAt_total (before ++ [word]) follower after
  rw [List.append_assoc, List.singleton_append, ← split] at here
  rw [here]
  rfl

/-- Where all that was returned leads on, a walk starts or goes on behind a word. -/
theorem leads_of_known {places : List (Word × Nat)}
    (leads : ∀ place ∈ places, place.2 ≠ 0 → vocabulary.Leads place.1 place.2)
    (known : token = 0 ∨ token ∈ places.map (·.2)) :
    token = 0 ∨ ∃ word, vocabulary.Leads word token := by
  by_cases zero : token = 0
  · exact .inl zero
  · obtain ⟨place, among, rfl⟩ := List.mem_map.mp (known.resolve_left zero)
    exact .inr ⟨_, leads place among zero⟩

/-- The token that a walk returns leads behind the word that it returns, unless it is zero. -/
theorem leads_next (known : token = 0 ∨ ∃ word, vocabulary.Leads word token)
    (onwards : (vocabulary.next token).2 ≠ 0) :
    vocabulary.Leads (vocabulary.next token).1 (vocabulary.next token).2 := by
  have behind : ∀ before word after,
      vocabulary.spelled = before ++ word :: after → token = total before →
        vocabulary.Leads (vocabulary.next token).1 (vocabulary.next token).2 := by
    rintro before word after split rfl
    rw [next_total split] at onwards ⊢
    have some : after ≠ [] := fun none => onwards (if_pos none)
    exact ⟨before, after, split, some, if_neg some⟩
  rcases known with rfl | ⟨word, before, after, split, some, rfl⟩
  · cases split : vocabulary.spelled with
    | nil =>
        rw [Vocabulary.next, split] at onwards
        exact absurd rfl onwards
    | cons word after => exact behind [] word after split rfl
  · obtain ⟨follower, after, rfl⟩ := List.exists_cons_of_ne_nil some
    exact behind (before ++ [word]) follower after (split.trans (List.append_cons _ _ _)) rfl

end Vocabulary

namespace Dictionary

/-- Walks do not read the note of damage. -/
theorem nextWord_cleared (dictionary : Dictionary) (token : Nat) :
    dictionary.cleared.nextWord token = dictionary.nextWord token := rfl

theorem walk_cleared (dictionary : Dictionary) (token : Nat) :
    dictionary.cleared.walk token = dictionary.walk token := by
  have same : dictionary.cleared.content.terminals = dictionary.content.terminals := rfl
  exact walk_congr same token

namespace Chronicle

variable {dictionary : Dictionary} {vocabulary : Vocabulary} {places : List (Word × Nat)}

/-- A dictionary says what it was taught. -/
theorem represents (chronicle : Chronicle dictionary vocabulary places) :
    dictionary.content.Represents dictionary.version vocabulary := by
  induction chronicle with
  | created created => exact (Session.speaks_start created).1.represents.content
  | opened _ reopened ih => exact (reopened.represents ih).content
  | performed _ tokens operation ih => exact Session.learnt_perform ih operation
  | walked _ _ ih => exact ih

/-- Where a dictionary with a history goes on it is as where it started. -/
theorem genuine (chronicle : Chronicle dictionary vocabulary places) : Genuine dictionary := by
  induction chronicle with
  | created created => exact .created created
  | opened _ reopened ih => exact .opened ih reopened
  | performed _ tokens operation ih => exact ih.performed tokens operation
  | @walked _ _ _ token _ _ ih => exact ih.performed [token] (.request (.next 0))

/-- Without the note of damage it represents what it was taught. -/
theorem cleared (chronicle : Chronicle dictionary vocabulary places) :
    dictionary.cleared.Represents vocabulary := ⟨chronicle.represents, rfl⟩

/-- A walk goes on from the start and behind every word that leads on. -/
theorem nextWord_eq (chronicle : Chronicle dictionary vocabulary places) {token : Nat}
    (known : token = 0 ∨ ∃ word, vocabulary.Leads word token) :
    dictionary.nextWord token = pure (vocabulary.next token) := by
  have walkable := Session.walkable (known.imp_right fun ⟨_, leads⟩ => leads.walkable)
  rw [← nextWord_cleared, chronicle.cleared.nextWord walkable]

/-- Every token that was returned still leads behind the word with which it was returned. -/
theorem leads (chronicle : Chronicle dictionary vocabulary places) :
    ∀ place ∈ places, place.2 ≠ 0 → vocabulary.Leads place.1 place.2 := by
  induction chronicle with
  | created => exact fun _ among => absurd among List.not_mem_nil
  | opened _ _ ih => exact ih
  | @performed dictionary vocabulary _ _ tokens operation ih =>
      intro place among onwards
      obtain ⟨more, further⟩ := Session.exists_spelled_learn (operation.requests dictionary)
        (Session.mk dictionary tokens) vocabulary
      exact (ih place among onwards).append further
  | @walked dictionary vocabulary places token chronicle known ih =>
      have start := leads_of_known ih known
      intro place among onwards
      rcases List.mem_cons.mp among with rfl | before
      · rw [chronicle.nextWord_eq start] at onwards ⊢
        exact leads_next start onwards
      · exact ih place before onwards

end Chronicle

/-- What is known after some operations. -/
def Session.learnAll (session : Session) (vocabulary : Vocabulary) : List Operation → Vocabulary
  | [] => vocabulary
  | operation :: operations =>
      (session.perform operation).learnAll
        (session.learn vocabulary (operation.requests session.dictionary)) operations

theorem Chronicle.drive (operations : List Operation) :
    ∀ {session : Session} {vocabulary : Vocabulary} {places : List (Word × Nat)},
      Chronicle session.dictionary vocabulary places →
        Chronicle (session.drive operations).dictionary (session.learnAll vocabulary operations)
          places := by
  induction operations with
  | nil => exact fun chronicle => chronicle
  | cons operation operations ih =>
      intro session vocabulary places chronicle
      exact ih (chronicle.performed session.tokens operation)

/-- After any operations it can be stored and opened again, with its history. -/
theorem Chronicle.exists_opened {dictionary : Dictionary} {vocabulary : Vocabulary}
    {places : List (Word × Nat)} (chronicle : Chronicle dictionary vocabulary places)
    (fits : dictionary.header.Storable) (operations : List Operation) :
    ∃ opened, Chronicle opened ((Session.start dictionary).learnAll vocabulary operations)
      places := by
  have start : Chronicle (Session.start dictionary).dictionary vocabulary places := chronicle
  have last := start.drive operations
  have kept : Kept Sturdy dictionary.header (Session.start dictionary).dictionary :=
    ⟨rfl, chronicle.genuine.sturdy⟩
  rw [← (lasting_sturdy.drive kept operations).headed] at fits
  obtain ⟨opened, reopened⟩ := last.genuine.sturdy.exists_reopened fits
  exact ⟨opened, last.opened reopened⟩

/-- What an empty dictionary is taught by some operations. -/
def taught (limits : Configuration) (operations : List Operation) : Vocabulary :=
  (Session.start (empty ⟨.plain, "en", default⟩ limits)).learnAll {} operations

theorem chronicle_reached (limits : Configuration) (operations : List Operation) :
    Chronicle (reached limits operations) (taught limits operations) [] :=
  have empty : Chronicle (Session.start (empty ⟨.plain, "en", default⟩ limits)).dictionary {} [] :=
    .created (show create 4 "en" default limits = .ok _ from rfl)
  empty.drive operations

/-- Every dictionary that can come to be has a history. -/
theorem Genuine.exists_chronicle {dictionary : Dictionary} (genuine : Genuine dictionary) :
    ∃ vocabulary, Chronicle dictionary vocabulary [] := by
  induction genuine with
  | created created => exact ⟨_, .created created⟩
  | opened _ reopened ih =>
      obtain ⟨vocabulary, chronicle⟩ := ih
      exact ⟨vocabulary, chronicle.opened reopened⟩
  | performed _ tokens operation ih =>
      obtain ⟨vocabulary, chronicle⟩ := ih
      exact ⟨_, chronicle.performed tokens operation⟩

/-- It is one of those that are opened from images that say anything. -/
theorem Genuine.attained {dictionary : Dictionary} (genuine : Genuine dictionary) :
    Attained dictionary := by
  induction genuine with
  | created created => exact .created created
  | opened _ reopened =>
      obtain ⟨_, _, _, _, _, _, _, _, _, _, _, done⟩ := reopened.image
      exact .opened done
  | performed _ tokens operation ih => exact ih.performed tokens operation

end Dictionary

end Lexicon

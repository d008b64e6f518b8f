/-
Module: Lexicon.Proofs.Dictionary.Genuine
Layer: Proofs
Purpose: Dictionaries that were created, used in any way, also with tokens that nobody returned, and
  opened again from their images: their contents represent vocabularies, even when damage was noted
  in them, and can be stored.
Imports: Lexicon.Proofs.Dictionary.Upkeep
Trusted boundary: none
Main exports: Dictionary.Heedless, Dictionary.lasting_represents, Dictionary.Genuine,
  Dictionary.Sturdy, Dictionary.Sturdy.decode, Dictionary.lasting_sturdy,
  Dictionary.Genuine.sturdy, Dictionary.Lasting.genuine
-/
import Lexicon.Proofs.Dictionary.Upkeep

namespace Lexicon

open Vocabulary

namespace Dictionary

/-! ### Changes that do not heed damage -/

/-- The dictionary with damage noted in it. -/
def marked (dictionary : Dictionary) : Dictionary := { dictionary with damaged := true }

/-- The dictionary without a note of damage. -/
def cleared (dictionary : Dictionary) : Dictionary := { dictionary with damaged := false }

/-- A change that does the same whether or not damage is noted. -/
def Heedless {α : Type} (change : Mutation Dictionary α) : Prop :=
  ∀ dictionary, change.apply dictionary.marked =
    ((change.apply dictionary).1, (change.apply dictionary).2.marked)

namespace Heedless

variable {α β : Type}

theorem pure (value : α) : Heedless (Pure.pure value : Mutation Dictionary α) := fun _ => rfl

theorem throw (error : Error) : Heedless (MonadExcept.throw error : Mutation Dictionary α) :=
  fun _ => rfl

theorem check (check : Except Error α) : Heedless (liftM check : Mutation Dictionary α) :=
  fun _ => rfl

theorem reading (reading : Reading α) : Heedless (liftM reading : Mutation Dictionary α) := by
  intro dictionary
  rw [apply_reading, apply_reading]
  simp only [note, marked, Bool.true_or]

theorem bind {first : Mutation Dictionary α} {next : α → Mutation Dictionary β}
    (heedless : Heedless first) (rest : ∀ value, Heedless (next value)) :
    Heedless (first >>= next) := by
  intro dictionary
  rw [Mutation.apply_bind, Mutation.apply_bind, heedless dictionary]
  generalize first.apply dictionary = outcome
  obtain ⟨answer, after⟩ := outcome
  cases answer with
  | error error => rfl
  | ok value => exact rest value after

/-- What follows may depend on the dictionary, but not on the note. -/
theorem bind_get {next : Dictionary → Mutation Dictionary β}
    (same : ∀ dictionary, next dictionary.marked = next dictionary)
    (rest : ∀ dictionary, Heedless (next dictionary)) : Heedless (get >>= next) := by
  intro dictionary
  show (next dictionary.marked).apply dictionary.marked = _
  rw [same]
  exact rest dictionary dictionary

theorem ite {condition : Prop} [Decidable condition] {first second : Mutation Dictionary α}
    (here : Heedless first) (there : Heedless second) :
    Heedless (if condition then first else second) := by
  split
  next => exact here
  next => exact there

theorem require (condition : Bool) (error : Error) :
    Heedless (Mutation.require condition error) := ite (pure ()) (throw error)

theorem onWords (change : Mutation Forest α) : Heedless (onWords change) := fun _ => rfl

theorem onFollowers (change : Mutation Forest α) : Heedless (onFollowers change) := fun _ => rfl

theorem onContent (change : Content → Content) : Heedless (onContent change) := fun _ => rfl

theorem supersede (bytes : Nat) : Heedless (supersede bytes) := fun _ => rfl

theorem find (word : Word) : Heedless (Dictionary.require word) := by
  refine .bind_get (fun _ => rfl) fun dictionary => .bind (.reading _) fun found => ?_
  cases found with
  | none => exact .throw _
  | some offset => exact .pure offset

theorem addUnigram (word : Word) (unigram : Unigram) : Heedless (addUnigram word unigram) := by
  refine .bind_get (fun _ => rfl) fun dictionary => .bind (.check _) fun _ => .bind (.check _)
    fun _ => .bind (.reading _) fun found => ?_
  cases found with
  | none =>
      exact .bind_get (fun _ => rfl) fun dictionary => .bind (.require _ _) fun _ =>
        .bind (.check _) fun _ => .bind (.onWords _) fun _ => .onContent _
  | some offset =>
      refine .bind_get (fun _ => rfl) fun dictionary => .bind (.reading _) fun terminal => ?_
      cases terminal with
      | none => exact .throw _
      | some terminal =>
          exact .bind (.check _) fun _ => .bind (.reading _) fun _ => .bind (.onContent _) fun _ =>
            .supersede _

theorem addBigram (first : Word) (bigram : Bigram) : Heedless (addBigram first bigram) := by
  refine .bind_get (fun _ => rfl) fun dictionary => .bind (.check _) fun _ => .bind (.check _)
    fun _ => .bind (.find _) fun source => .bind (.find _) fun target => ?_
  refine .bind_get (fun _ => rfl) fun dictionary => ?_
  dsimp only
  split
  next =>
    exact .bind (.check _) fun _ => .bind (.onFollowers _) fun _ => .bind (.onContent _) fun _ =>
      .supersede _
  next =>
    exact .bind (.require _ _) fun _ => .bind (.check _) fun _ => .bind (.onFollowers _) fun _ =>
      .bind (.onContent _) fun _ => .onContent _

theorem removeBigram (first second : Word) : Heedless (removeBigram first second) := by
  refine .bind_get (fun _ => rfl) fun dictionary => .bind (.check _) fun _ => .bind (.check _)
    fun _ => .bind (.check _) fun _ => .bind (.find _) fun source => .bind (.find _) fun target => ?_
  refine .bind_get (fun _ => rfl) fun dictionary => ?_
  cases dictionary.followerTable source with
  | none => exact .pure ()
  | some table =>
      exact .bind (.onFollowers _) fun removed =>
        .ite (.bind (.onContent _) fun _ => .supersede _) (.pure ())

/-- Such a change answers, and leaves behind, what it does where no damage is noted, but for the
note. -/
theorem apply_cleared {change : Mutation Dictionary α} (heedless : Heedless change)
    (dictionary : Dictionary) :
    (change.apply dictionary).1 = (change.apply dictionary.cleared).1 ∧
      (change.apply dictionary).2.cleared = (change.apply dictionary.cleared).2.cleared := by
  have same : dictionary = dictionary.cleared ∨ dictionary = dictionary.cleared.marked := by
    obtain ⟨header, configuration, updatable, content, superseded, damaged⟩ := dictionary
    cases damaged with
    | false => exact .inl rfl
    | true => exact .inr rfl
  rcases same with clear | noted
  · rw [← clear]
    exact ⟨rfl, rfl⟩
  · have done := heedless dictionary.cleared
    rw [← noted] at done
    rw [done]
    exact ⟨rfl, rfl⟩

/-- What such a change does to a content is what it does to it where no damage is noted. -/
theorem cleared {change : Mutation Dictionary Unit} (heedless : Heedless change)
    (dictionary : Dictionary) :
    (change.apply dictionary).2.header = (change.apply dictionary.cleared).2.header ∧
      (change.apply dictionary).2.content = (change.apply dictionary.cleared).2.content := by
  obtain ⟨_, same⟩ := heedless.apply_cleared dictionary
  have header := congrArg Dictionary.header same
  have content := congrArg Dictionary.content same
  exact ⟨header, content⟩

end Heedless

/-! ### Contents that represent a vocabulary -/

section Decided

variable {accepted : Except Error Unit} {change : Mutation Dictionary Unit} {dictionary : Dictionary}
  {vocabulary next : Vocabulary} {room : Nat}

/-- What holds before a change that is decided holds afterwards, if it does wherever the change is
made. -/
theorem Decides.holds (holds : Dictionary → Prop)
    (decided : Decides accepted change dictionary next room) (here : holds dictionary)
    (made : ∀ {after : Dictionary}, change.apply dictionary = (.ok (), after) →
      Changed dictionary after next room → holds after) : holds (change.apply dictionary).2 := by
  cases accepted with
  | error error =>
      rw [show change.apply dictionary = _ from decided]
      exact here
  | ok =>
      obtain ⟨after, done, changed⟩ := decided
      rw [done]
      exact made done changed

/-- A change that is decided leaves a content that represents a vocabulary. -/
theorem Decides.represents (decided : Decides accepted change dictionary next room)
    (represents : dictionary.Represents vocabulary) :
    (change.apply dictionary).2.header = dictionary.header ∧
      ∃ vocabulary, (change.apply dictionary).2.Represents vocabulary :=
  decided.holds (fun after => after.header = dictionary.header ∧
      ∃ vocabulary, after.Represents vocabulary) ⟨rfl, vocabulary, represents⟩
    fun _ changed => ⟨changed.header, next, changed.represents⟩

/-- So it is with what holds of a content and what it represents. -/
theorem Decides.kept (holds : Content → Vocabulary → Prop)
    (decided : Decides accepted change dictionary next room)
    (here : holds dictionary.content vocabulary)
    (made : ∀ {after : Dictionary}, change.apply dictionary = (.ok (), after) →
      Changed dictionary after next room → holds after.content next) :
    (change.apply dictionary).2.header = dictionary.header ∧
      ∃ known, holds (change.apply dictionary).2.content known :=
  decided.holds (fun after => after.header = dictionary.header ∧ ∃ known, holds after.content known)
    ⟨rfl, vocabulary, here⟩ fun done changed => ⟨changed.header, next, made done changed⟩

end Decided

/-- A content that represents some vocabulary, in the format of a header. -/
def Means (header : Header) (content : Content) : Prop :=
  ∃ vocabulary, content.Represents header.version vocabulary

/-- What such a change keeps where no damage is noted it keeps everywhere. -/
theorem Heedless.preserves {holds : Header → Content → Prop} {change : Mutation Dictionary Unit}
    (heedless : Heedless change)
    (keeps : ∀ {dictionary : Dictionary}, dictionary.damaged = false →
      holds dictionary.header dictionary.content →
        (change.apply dictionary).2.header = dictionary.header ∧
          holds dictionary.header (change.apply dictionary).2.content) (header : Header) :
    Preserves (Kept holds header) change := by
  rintro dictionary ⟨rfl, content⟩
  obtain ⟨sameHeader, sameContent⟩ := heedless.cleared dictionary
  have clear : dictionary.cleared.damaged = false := rfl
  obtain ⟨headed, kept⟩ := keeps clear content
  rw [← sameContent] at kept
  exact ⟨sameHeader.trans headed, kept⟩

theorem preserves_means {change : Mutation Dictionary Unit} (heedless : Heedless change)
    (decided : ∀ {dictionary : Dictionary} {vocabulary : Vocabulary},
      dictionary.Represents vocabulary →
        (change.apply dictionary).2.header = dictionary.header ∧
          ∃ vocabulary, (change.apply dictionary).2.Represents vocabulary) (header : Header) :
    Preserves (Kept Means header) change := by
  refine heedless.preserves (fun undamaged ⟨vocabulary, represents⟩ => ?_) header
  obtain ⟨headed, next, known⟩ := decided ⟨represents, undamaged⟩
  have content := known.content
  rw [Dictionary.version, headed] at content
  exact ⟨headed, next, content⟩

/-- Contents go on representing vocabularies whatever is done, also when damage is noted. -/
theorem lasting_represents : Lasting Means where
  empty header := ⟨{}, (represents_empty header default).content⟩
  addUnigram header word unigram :=
    preserves_means (.addUnigram word unigram)
      (fun represents => (represents.addUnigram word unigram).represents represents) header
  addBigram header first bigram :=
    preserves_means (.addBigram first bigram)
      (fun represents => (represents.addBigram first bigram).represents represents) header
  removeBigram header first second :=
    preserves_means (.removeBigram first second)
      (fun represents => (represents.removeBigram first second).represents represents) header

/-! ### All that can come to be -/

/-- The dictionaries that were created, or opened from the image of such a dictionary, and then used
in any way: with any tokens, and with damage noted or not. -/
inductive Genuine : Dictionary → Prop where
  | created {number : Nat} {locale : String} {attributes : Attributes} {limits : Configuration}
      {dictionary : Dictionary} (created : create number locale attributes limits = .ok dictionary) :
      Genuine dictionary
  | opened {source opened : Dictionary} (genuine : Genuine source)
      (reopened : Reopened source opened) : Genuine opened
  | performed {dictionary : Dictionary} (genuine : Genuine dictionary) (tokens : List Nat)
      (operation : Operation) :
      Genuine ((Session.mk dictionary tokens).perform operation).dictionary

theorem Genuine.drive {session : Session} (genuine : Genuine session.dictionary)
    (operations : List Operation) : Genuine (session.drive operations).dictionary := by
  induction operations generalizing session with
  | nil => exact genuine
  | cons operation operations ih => exact ih (genuine.performed session.tokens operation)

/-- A content that represents a vocabulary and whose forests can be stored. -/
def Sturdy (header : Header) (content : Content) : Prop :=
  Means header content ∧ Sustains Forest.Storable content

namespace Sturdy

variable {header : Header} {content : Content}

/-- The copy of a forest in an image can be stored again. -/
theorem reloaded (sturdy : Sturdy header content) : Sturdy header content.reloaded := by
  obtain ⟨⟨vocabulary, represents⟩, ⟨tables, words⟩, tablesFollowers, followers⟩ := sturdy
  exact ⟨⟨vocabulary, represents.copy ⟨rfl, rfl, rfl, rfl, rfl, rfl⟩⟩,
    ⟨tables, words.copy rfl rfl⟩, tablesFollowers, followers.copy rfl rfl⟩

/-- The image of such a content is accepted, and read as it was written. -/
theorem decode (sturdy : Sturdy header content) {image : List UInt8}
    (written : Image.encode header content = .ok image) :
    Image.decode image.toByteArray = .ok (header, content.reloaded) := by
  obtain ⟨⟨vocabulary, represents⟩, ⟨tables, words⟩, tablesFollowers, followers⟩ := sturdy
  obtain ⟨_, _, few, fewBigrams⟩ := represents.readable
  exact Image.decode_eq words.takes_read followers.takes_read few fewBigrams written

/-- Such a content has an image if its header fits. -/
theorem exists_encode (sturdy : Sturdy header content) (fits : header.Storable) :
    ∃ image, Image.encode header content = .ok image := by
  obtain ⟨⟨vocabulary, represents⟩, _⟩ := sturdy
  have bounded := represents.sizes_le
  have limit : maxBufferBytes = 2147483647 := rfl
  have four : LittleEndian.span 4 = 4294967296 := rfl
  exact Image.exists_encode fits (by omega) (by omega)

end Sturdy

/-- Two properties that last do so together. -/
theorem Lasting.both {holds wants : Header → Content → Prop} (first : Lasting holds)
    (second : Lasting wants) :
    Lasting fun header content => holds header content ∧ wants header content := by
  have kept : ∀ {change : Mutation Dictionary Unit} {header : Header},
      Preserves (Kept holds header) change → Preserves (Kept wants header) change →
        Preserves (Kept (fun header content => holds header content ∧ wants header content) header)
          change := by
    intro change header here there dictionary kept
    have one := here dictionary ⟨kept.headed, kept.content.1⟩
    have other := there dictionary ⟨kept.headed, kept.content.2⟩
    exact ⟨one.headed, one.content, other.content⟩
  exact ⟨fun header => ⟨first.empty header, second.empty header⟩,
    fun header word unigram =>
      kept (first.addUnigram header word unigram) (second.addUnigram header word unigram),
    fun header source bigram =>
      kept (first.addBigram header source bigram) (second.addBigram header source bigram),
    fun header source target =>
      kept (first.removeBigram header source target) (second.removeBigram header source target)⟩

/-- Contents stay like that whatever is done. -/
theorem lasting_sturdy : Lasting Sturdy :=
  lasting_represents.both (lasting_sustains Forest.lasting_storable)

/-- What lasts of contents that can be stored, and holds of the copy of a content in an image if it
holds of the content, holds of whatever came about. -/
theorem Lasting.genuine_of_sturdy {holds : Header → Content → Prop} (lasting : Lasting holds)
    (sturdy : ∀ {header : Header} {content : Content}, holds header content → Sturdy header content)
    (copied : ∀ {header : Header} {content : Content}, holds header content →
      holds header content.reloaded) {dictionary : Dictionary} (genuine : Genuine dictionary) :
    holds dictionary.header dictionary.content := by
  induction genuine with
  | created created =>
      obtain ⟨version, _, rfl⟩ := create_eq_ok_iff.mp created
      exact lasting.empty _
  | opened _ reopened ih =>
      obtain ⟨updatable, limits, rfl⟩ := reopened.eq_reloaded (sturdy ih).decode
      exact copied ih
  | performed _ tokens operation ih =>
      have start : Kept holds _ (Session.mk _ tokens).dictionary := ⟨rfl, ih⟩
      have kept := lasting.perform start operation
      have content := kept.content
      rw [← kept.headed] at content
      exact content

/-- Whatever came about, the content represents a vocabulary and can be stored. -/
theorem Genuine.sturdy {dictionary : Dictionary} (genuine : Genuine dictionary) :
    Sturdy dictionary.header dictionary.content :=
  lasting_sturdy.genuine_of_sturdy id Sturdy.reloaded genuine

/-- What lasts, and holds of the copy of a content in an image if it holds of the content, holds of
whatever came about. -/
theorem Lasting.genuine {holds : Header → Content → Prop} (lasting : Lasting holds)
    (copied : ∀ {header : Header} {content : Content}, holds header content →
      holds header content.reloaded) {dictionary : Dictionary} (genuine : Genuine dictionary) :
    holds dictionary.header dictionary.content :=
  ((lasting.both lasting_sturdy).genuine_of_sturdy And.right
    (fun both => ⟨copied both.1, both.2.reloaded⟩) genuine).1

end Dictionary

end Lexicon

/-
Module: Lexicon.Proofs.Dictionary.Traversal
Layer: Proofs
Purpose: Walks give every word once, in the order in which the words were first added, and their tokens
  stay valid whatever happens; in a dictionary that was opened from any image they come to an end.
Imports: Lexicon.Proofs.Dictionary.Chronicle, Lexicon.Proofs.Dictionary.Reservation,
  Lexicon.Proofs.Fidelity
Trusted boundary: none
Main exports: Dictionary.Chronicle.walk_of_mem, Dictionary.Attained.locatable,
  Dictionary.exists_iterate_eq_zero, Dictionary.walk_lasting
-/
import Lexicon.Proofs.Dictionary.Chronicle
import Lexicon.Proofs.Dictionary.Reservation
import Lexicon.Proofs.Fidelity

namespace Lexicon

open Vocabulary

open Forest (Coherent)

namespace Dictionary

/-! ### Walks in dictionaries with a history -/

namespace Chronicle

variable {dictionary : Dictionary} {vocabulary : Vocabulary} {places : List (Word × Nat)}

/-- A walk from the start gives the words in the order in which they were added, or the empty word if
there are none, and meets no damage. -/
theorem walk_zero (chronicle : Chronicle dictionary vocabulary places) :
    (dictionary.walk 0).value.map (·.1) =
        (if vocabulary.spelled = [] then [[]] else vocabulary.spelled) ∧
      (dictionary.walk 0).damaged = false := by
  rw [← walk_cleared]
  refine ⟨chronicle.cleared.walk_words, ?_⟩
  obtain ⟨answer, same, _⟩ :=
    chronicle.cleared.walk chronicle.cleared (Session.walkable (.inl rfl))
  rw [same]
  rfl

/-- A walk from a token that was returned gives the words behind the one with which it was returned,
and meets no damage. -/
theorem walk_of_mem (chronicle : Chronicle dictionary vocabulary places) {word : Word} {token : Nat}
    (returned : (word, token) ∈ places) (onwards : token ≠ 0) :
    ∃ before after, vocabulary.spelled = before ++ word :: after ∧ after ≠ [] ∧
      (dictionary.walk token).value.map (·.1) = after ∧ (dictionary.walk token).damaged = false := by
  have leads : vocabulary.Leads word token := chronicle.leads _ returned onwards
  have walkable := Session.walkable (.inr leads.walkable)
  obtain ⟨answer, same, _⟩ := chronicle.cleared.walk chronicle.cleared walkable
  obtain ⟨before, after, split, some, rfl⟩ := leads
  obtain ⟨follower, after, rfl⟩ := List.exists_cons_of_ne_nil some
  have behind : vocabulary.spelled = (before ++ [word]) ++ follower :: after :=
    split.trans (List.append_cons _ _ _)
  rw [← walk_cleared]
  refine ⟨before, follower :: after, split, some, chronicle.cleared.walk_behind behind, ?_⟩
  rw [same]
  rfl

/-- The words are those of which something is known. -/
theorem mem_spelled_iff (chronicle : Chronicle dictionary vocabulary places) (word : Word) :
    word ∈ vocabulary.spelled ↔ (dictionary.property word).value.isSome = true := by
  rw [← property_cleared, chronicle.cleared.property, Reading.value_pure, Vocabulary.property,
    Option.isSome_map, isSome_unigram?]

end Chronicle

/-! ### Tokens fit their field -/

/-- The place of every terminal record is a number of four bytes. -/
def Locatable (content : Content) : Prop := content.terminals.size < LittleEndian.span 4

theorem locatable_of_decode {image : ByteArray} {header : Header} {content : Content}
    (accepted : Image.decode image = .ok (header, content)) : Locatable content := by
  obtain ⟨_, _, _, _, _, _, written, _⟩ := Image.exists_parts_of_decode accepted
  obtain ⟨terminals, buffer, _⟩ := exists_of_bind written
  rw [Image.encodeBuffer] at buffer
  split at buffer
  next fits => exact fits
  next => cases buffer

/-- What is added stays below the ceiling. -/
theorem Housed.locatable {before after : Dictionary} {room : Nat}
    (housed : Housed before after room) : Locatable after.content := by
  have most : ceiling before.configuration ≤ maxBufferBytes := Nat.min_le_right _ _
  have limit : maxBufferBytes < LittleEndian.span 4 := by decide
  have used := usedBytes_eq after
  have growth := housed.growth
  have afforded := housed.afforded
  rw [Locatable]
  omega

/-- An addition that is made stays below the ceiling, and one that is refused changes nothing. -/
theorem locatable_of_addition {before : Dictionary} {change : Mutation Dictionary Unit}
    (here : Locatable before.content)
    (housed : ∀ {after}, change.apply before = (.ok (), after) → ∃ room, Housed before after room)
    (spares : Spares before change) : Locatable (change.apply before).2.content := by
  generalize done : change.apply before = outcome
  obtain ⟨answer, after⟩ := outcome
  cases answer with
  | ok =>
      obtain ⟨_, housed⟩ := housed done
      exact housed.locatable
  | error error =>
      rw [(spares before error after (.inl rfl) done).content]
      exact here

/-- Nothing that is done moves a terminal record where it cannot be named. -/
theorem lasting_locatable :
    Lasting fun _ content => Sustains (Coherent True) content ∧ Locatable content := by
  have lasting := lasting_sustains (Forest.lasting_coherent True)
  refine ⟨fun header => ⟨lasting.empty header, ?_⟩, fun header word unigram => ?_,
    fun header first bigram => ?_, fun header first second => ?_⟩
  · rw [Locatable]
    decide
  · rintro dictionary ⟨headed, sustains, here⟩
    have after := lasting.addUnigram header word unigram dictionary ⟨headed, sustains⟩
    refine ⟨after.headed, after.content, locatable_of_addition here (fun done => ?_)
      (spares_addUnigram sustains word unigram)⟩
    obtain ⟨_, housed, _⟩ :=
      ((meets_addUnigram sustains word unigram).outcome (.refl dictionary) done).1 () rfl
    exact ⟨_, housed⟩
  · rintro dictionary ⟨headed, sustains, here⟩
    have after := lasting.addBigram header first bigram dictionary ⟨headed, sustains⟩
    refine ⟨after.headed, after.content, locatable_of_addition here (fun done => ?_)
      (spares_addBigram sustains first bigram)⟩
    obtain ⟨housed, _⟩ :=
      ((meets_addBigram sustains first bigram).outcome (.refl dictionary) done).1 () rfl
    exact ⟨_, housed⟩
  · rintro dictionary ⟨headed, sustains, here⟩
    have after := lasting.removeBigram header first second dictionary ⟨headed, sustains⟩
    have same := preserves_records dictionary.content.terminals dictionary.content.records header
      first second dictionary ⟨headed, rfl, rfl⟩
    refine ⟨after.headed, after.content, ?_⟩
    rw [Locatable, same.content.1]
    exact here

/-- So it is in every dictionary that can come to be, whatever it was opened from. -/
theorem Attained.locatable {dictionary : Dictionary} (attained : Attained dictionary) :
    Locatable dictionary.content := by
  induction attained with
  | created created =>
      obtain ⟨version, _, rfl⟩ := create_eq_ok_iff.mp created
      exact (lasting_locatable.empty default).2
  | opened opened =>
      obtain ⟨_, _, _, _, _, _, accepted, rfl⟩ := exists_of_openFile opened
      exact locatable_of_decode accepted
  | @performed dictionary attained tokens operation ih =>
      have start : Kept (fun _ content => Sustains (Coherent True) content ∧ Locatable content)
          dictionary.header (Session.mk dictionary tokens).dictionary :=
        ⟨rfl, attained.sustains, ih⟩
      exact (lasting_locatable.perform start operation).content.2

/-! ### Every walk ends -/

/-- The token that a walk returns. -/
def following (dictionary : Dictionary) (token : Nat) : Nat := (dictionary.nextWord token).value.2

/-- Tokens grow and stay inside the buffer, and so zero is returned in the end.  The induction is on
the bytes that are left. -/
theorem exists_iterate_eq_zero (dictionary : Dictionary) (left : Nat) :
    ∀ token, dictionary.content.terminals.size ≤ token + left →
      ∃ steps ≤ left, dictionary.following^[steps + 1] token = 0 := by
  induction left with
  | zero =>
      intro token beyond
      refine ⟨0, Nat.le_refl 0, ?_⟩
      rcases dictionary.nextWord_token token with ended | inside
      · exact ended
      · omega
  | succ left ih =>
      intro token beyond
      rcases dictionary.nextWord_token token with ended | ⟨grows, _⟩
      · exact ⟨0, Nat.zero_le _, ended⟩
      · obtain ⟨steps, few, ended⟩ := ih (dictionary.following token) (by
          rw [following]
          omega)
        exact ⟨steps + 1, Nat.succ_le_succ few, ended⟩

/-- Walks visit every word once, and their tokens outlast changes.  In a dictionary with a history a
walk from zero gives each stored word once, in the order in which the words were first added; and a
token that was ever returned, unless it is zero, gives the words behind the one with which it was
returned, those that were added since included, whatever was added, overwritten, removed, compacted or
opened again in the meantime.  None of these walks meets damage.  In a dictionary that was opened from
any image that is accepted, and used in any way, a token that is returned is zero, or larger than the
one that was given and smaller than the buffer, of which four bytes tell the size; so every walk
ends. -/
theorem walk_lasting :
    (∀ {dictionary : Dictionary} {vocabulary : Vocabulary} {places : List (Word × Nat)},
      Chronicle dictionary vocabulary places →
        vocabulary.spelled.Nodup ∧
        (∀ word, word ∈ vocabulary.spelled ↔ (dictionary.property word).value.isSome = true) ∧
        (dictionary.walk 0).value.map (·.1) =
          (if vocabulary.spelled = [] then [[]] else vocabulary.spelled) ∧
        (dictionary.walk 0).damaged = false ∧
        ∀ word token, (word, token) ∈ places → token ≠ 0 →
          ∃ before after, vocabulary.spelled = before ++ word :: after ∧ after ≠ [] ∧
            (dictionary.walk token).value.map (·.1) = after ∧
            (dictionary.walk token).damaged = false) ∧
      ∀ {dictionary : Dictionary}, Attained dictionary → ∀ token,
        (dictionary.following token = 0 ∨ token < dictionary.following token ∧
          dictionary.following token < dictionary.content.terminals.size) ∧
        dictionary.content.terminals.size < 2 ^ 32 ∧
        ∃ steps ≤ dictionary.content.terminals.size, dictionary.following^[steps + 1] token = 0 := by
  refine ⟨fun chronicle => ?_, fun attained token => ?_⟩
  · obtain ⟨words, undamaged⟩ := chronicle.walk_zero
    exact ⟨chronicle.represents.distinct, chronicle.mem_spelled_iff, words, undamaged,
      fun _ _ => chronicle.walk_of_mem⟩
  · exact ⟨nextWord_token _ token, attained.locatable,
      exists_iterate_eq_zero _ _ token (Nat.le_add_left _ _)⟩

/-- Two words. -/
def pair : List Operation :=
  [.request (.addUnigram [97] { probability := 7 }),
    .request (.addUnigram [98] { probability := 5 })]

/-- The first of them is overwritten, is followed by the second one and no longer is, another word is
added, and all is compacted. -/
def upheaval : List Operation :=
  [.request (.addUnigram [97] { probability := 9 }),
    .request (.addBigram [97] { target := [98], probability := 3 }),
    .request (.addUnigram [99] { probability := 1 }),
    .request (.removeBigram [97] [98]),
    .flushCompacted .empty "m"]

/-- A walk stops behind the first of two words, and goes on after an upheaval, in the dictionary that was
opened from the image that was written then. -/
theorem walk_lasting_upheaval :
    ∃ dictionary vocabulary places, Chronicle dictionary vocabulary places ∧
      Attained dictionary ∧ ([97], 9) ∈ places ∧
      (dictionary.walk 9).value.map (·.1) = [[98], [99]] ∧
      ∃ steps ≤ dictionary.content.terminals.size, dictionary.following^[steps + 1] 5 = 0 := by
  have walked := (chronicle_reached .standard pair).walked (.inl rfl)
  have returned : ((reached .standard pair).nextWord 0).value = ([97], 9) := by decide +kernel
  rw [returned] at walked
  generalize paused : ((reached .standard pair).note ((reached .standard pair).nextWord 0)).2 = middle
    at walked
  have fits : middle.header.Storable := by
    rw [← paused]
    exact header_reached .standard pair ▸ ⟨by decide, by decide, nofun, nofun⟩
  obtain ⟨opened, chronicle⟩ := walked.exists_opened fits upheaval
  have spelled : ((Session.start middle).learnAll (taught .standard pair) upheaval).spelled =
      [[97], [98], [99]] := by
    rw [← paused]
    decide +kernel
  have attained := chronicle.genuine.attained
  obtain ⟨_, _, _, _, resumes⟩ := walk_lasting.1 chronicle
  obtain ⟨before, after, split, _, walk, _⟩ := resumes [97] 9 List.mem_cons_self (by decide)
  refine ⟨opened, _, _, chronicle, attained, List.mem_cons_self, ?_,
    (walk_lasting.2 attained 5).2.2⟩
  rw [spelled] at split
  rw [walk]
  cases before with
  | nil => exact (List.cons.inj split).2.symm
  | cons first rest =>
      have among : [97] ∈ ([[98], [99]] : List Word) := by
        rw [(List.cons.inj split).2]
        exact List.mem_append_right _ List.mem_cons_self
      exact absurd among (by decide)

end Dictionary

end Lexicon

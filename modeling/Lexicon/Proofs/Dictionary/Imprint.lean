/-
Module: Lexicon.Proofs.Dictionary.Imprint
Layer: Proofs
Purpose: The image of a dictionary that was just filled depends on the header and on what was filled
  in, and on nothing else; flushing with compaction writes such an image.
Imports: Lexicon.Proofs.Dictionary.Flushing
Trusted boundary: none
Main exports: Dictionary.content_fill, Dictionary.Imprint, Dictionary.Imprint.unique,
  Dictionary.Imprint.openFile, Dictionary.flushCompacted_eq_ok, Dictionary.Represents.imprint
-/
import Lexicon.Proofs.Dictionary.Flushing

namespace Lexicon

open Vocabulary

open Mutation (Both)

namespace Dictionary

/-! ### Filling within different limits -/

/-- Two dictionaries with the same content have the same content when the same was filled into
both. -/
theorem both_fill {first second : Dictionary} (level : Level Eq first second)
    (vocabulary : Vocabulary) :
    Both (Level Eq) (fill vocabulary) (fill vocabulary) first second := by
  refine .bind (.forM (fun entry _ _ level => ?_) level) fun _ _ _ between =>
    .forM (fun pair _ _ level => ?_) between
  · exact (Alike.of_level_eq level).addUnigram files_eq _ _
  · exact (Alike.of_level_eq level).addBigram files_eq _ _

/-- Whatever the limits are, they show in nothing but in whether a vocabulary can be filled in. -/
theorem content_fill {header : Header} {limits other : Configuration} {vocabulary : Vocabulary}
    {fresh last : Dictionary}
    (filled : (fill vocabulary).apply (empty header limits) = (.ok (), fresh))
    (filledOther : (fill vocabulary).apply (empty header other) = (.ok (), last)) :
    last.content = fresh.content := by
  have start : Level Eq (empty header limits) (empty header other) :=
    ⟨rfl, rfl, rfl, rfl, rfl, rfl, rfl⟩
  obtain ⟨_, level⟩ := both_fill start vocabulary _ _ _ _ filled filledOther
  obtain ⟨_, _, _, content, _, _⟩ := fresh
  obtain ⟨_, _, _, contentOther, _, _⟩ := last
  obtain ⟨_, terminals, records, words, followers, unigramCount, bigramCount⟩ := level
  obtain ⟨_, _, _, _, _, _⟩ := content
  obtain ⟨_, _, _, _, _, _⟩ := contentOther
  dsimp only at terminals records words followers unigramCount bigramCount
  rw [terminals, records, ← words, ← followers, unigramCount, bigramCount]

/-- What is filled into an empty dictionary can be stored. -/
theorem Lasting.fill {holds : Header → Content → Prop} (lasting : Lasting holds) (header : Header)
    (vocabulary : Vocabulary) : Preserves (Kept holds header) (fill vocabulary) :=
  .bind (.forM fun entry => lasting.addUnigram header entry.1 entry.2) fun _ =>
    .forM fun pair => lasting.addBigram header pair.1 pair.2

/-! ### Images of what was filled in -/

/-- The image of an empty dictionary, with a given header, into which a vocabulary was filled. -/
def Imprint (header : Header) (vocabulary : Vocabulary) (image : List UInt8) : Prop :=
  ∃ limits fresh, (fill vocabulary).apply (empty header limits) = (.ok (), fresh) ∧
    fresh.content.Represents header.version vocabulary ∧
    Image.encode header fresh.content = .ok image

namespace Imprint

variable {header : Header} {vocabulary : Vocabulary} {image : List UInt8}

/-- There is at most one. -/
theorem unique {other : List UInt8} (imprint : Imprint header vocabulary image)
    (imprintOther : Imprint header vocabulary other) : other = image := by
  obtain ⟨limits, fresh, filled, _, encoded⟩ := imprint
  obtain ⟨limitsOther, last, filledOther, _, encodedOther⟩ := imprintOther
  rw [content_fill filled filledOther, encoded] at encodedOther
  cases encodedOther
  rfl

/-- What is opened from it says what was filled in. -/
theorem openFile (imprint : Imprint header vocabulary image) {directory : Directory} {name : String}
    (mapped : directory.mapFile name = .ok image.toByteArray) (updatable : Bool)
    (limits : Configuration) :
    ∃ opened, Dictionary.openFile directory name 0 0 updatable limits = .ok opened ∧
      opened.header = header ∧ opened.configuration = limits ∧ opened.updatable = updatable ∧
      opened.Represents vocabulary := by
  obtain ⟨room, fresh, filled, represents, encoded⟩ := imprint
  have kept := lasting_sturdy.fill header vocabulary (empty header room)
    ⟨rfl, lasting_sturdy.empty header⟩
  rw [show ((fill vocabulary).run.run (empty header room)).2 = fresh from
    congrArg Prod.snd filled] at kept
  have some : image ≠ [] := by
    obtain ⟨head, body, _, _, rfl, _⟩ := Image.exists_parts encoded
    exact nofun
  refine ⟨_, openFile_whole some mapped (kept.content.decode encoded) updatable limits, rfl, rfl,
    rfl, ?_, rfl⟩
  exact represents.copy ⟨rfl, rfl, rfl, rfl, rfl, rfl⟩

end Imprint

/-! ### Flushing with compaction -/

/-- Flushing with compaction succeeds where both steps do. -/
theorem flushCompacted_eq_ok {dictionary after : Dictionary} {directory written : Directory}
    {name : String} :
    dictionary.flushCompacted directory name = (.ok (), after, written) ↔
      dictionary.checkUpdatable = .ok () ∧ compact.apply dictionary = (.ok (), after) ∧
        after.flush directory name = (.ok (), written) := by
  rw [flushCompacted]
  cases dictionary.checkUpdatable with
  | error error => simp
  | ok accepted =>
      rcases compact.apply dictionary with ⟨answer, compacted⟩
      cases answer with
      | error error => simp
      | ok done =>
          dsimp only
          constructor
          · intro whole
            rw [Prod.mk.injEq, Prod.mk.injEq] at whole
            rcases whole with ⟨answered, rfl, rfl⟩
            exact ⟨rfl, rfl, Prod.ext answered rfl⟩
          · rintro ⟨_, same, flushed⟩
            cases same
            rw [flushed]

/-- The image of a dictionary that was compacted is that of what the dictionary says. -/
theorem Represents.imprint_of_compact {dictionary after : Dictionary} {vocabulary : Vocabulary}
    (represents : dictionary.Represents vocabulary)
    (compacted : Dictionary.compact.apply dictionary = (.ok (), after)) {image : List UInt8}
    (encoded : Image.encode after.header after.content = .ok image) :
    Imprint dictionary.header vocabulary image := by
  obtain ⟨answer, last, spec⟩ := represents.compact
  have same := spec.applied
  rw [compacted] at same
  cases same
  have filled := represents.compact_eq
  rw [compacted] at filled
  split at filled
  next fresh made =>
    cases filled
    exact ⟨dictionary.configuration, fresh, made, spec.represents.content, encoded⟩
  next => cases filled

/-- Flushing with compaction writes the image of what the dictionary says. -/
theorem Represents.imprint {dictionary after : Dictionary} {vocabulary : Vocabulary}
    (represents : dictionary.Represents vocabulary) {directory written : Directory} {name : String}
    (done : dictionary.flushCompacted directory name = (.ok (), after, written)) :
    ∃ image, Imprint dictionary.header vocabulary image ∧
      written.mapFile name = .ok image.toByteArray := by
  obtain ⟨_, compacted, flushed⟩ := flushCompacted_eq_ok.mp done
  obtain ⟨image, encoded, mapped⟩ := exists_image_of_flush flushed
  exact ⟨image, represents.imprint_of_compact compacted encoded, mapped⟩

end Dictionary

end Lexicon

/-
Module: Lexicon.Proofs.Dictionary.Flushing
Layer: Proofs
Purpose: What is opened from the image of a dictionary is that dictionary, but for the free runs of
  its forests and what it remembers of its past; and which dictionaries have no image.
Imports: Lexicon.Proofs.Dictionary.Indistinct, Lexicon.Proofs.Directory
Trusted boundary: none
Main exports: Dictionary.Restored, Dictionary.exists_image_of_flush, Dictionary.flush_eq_error,
  Dictionary.Genuine.flush_restored
-/
import Lexicon.Proofs.Dictionary.Indistinct
import Lexicon.Proofs.Directory

namespace Lexicon

open Vocabulary

namespace Dictionary

/-- What a dictionary has in common with the one from whose image it was opened: its header, its
counts and buffers, and every slot of its forests, of which none is free.  It answers every question
alike, and on the same terms it still does so after the same changes. -/
structure Restored (dictionary opened : Dictionary) : Prop where
  header : opened.header = dictionary.header
  content : opened.content = dictionary.content.reloaded
  superseded : opened.superseded = 0
  undamaged : opened.damaged = false
  indistinct : Indistinct dictionary opened
  query : opened.configuration = dictionary.configuration →
    ∀ question, opened.query question = dictionary.query question
  later : opened.configuration = dictionary.configuration → dictionary.damaged = false →
    ∀ alterations, (∀ answer ∈ (dictionary.alterAll alterations).1, Admitted answer) →
      (∀ answer ∈ (opened.alterAll alterations).1, Admitted answer) →
        (opened.alterAll alterations).1 = (dictionary.alterAll alterations).1 ∧
          Indistinct (dictionary.alterAll alterations).2 (opened.alterAll alterations).2 ∧
          ∀ question, (opened.alterAll alterations).2.query question =
            (dictionary.alterAll alterations).2.query question

theorem Sturdy.restored {dictionary : Dictionary}
    (sturdy : Sturdy dictionary.header dictionary.content) (updatable : Bool)
    (limits : Configuration) :
    Restored dictionary
      (ofContent dictionary.header dictionary.content.reloaded updatable limits) := by
  obtain ⟨vocabulary, represents⟩ := sturdy.1
  obtain ⟨other, representsOther⟩ := sturdy.reloaded.1
  have copied : dictionary.content.reloaded.Represents dictionary.version vocabulary :=
    represents.copy ⟨rfl, rfl, rfl, rfl, rfl, rfl⟩
  have matched : limits = dictionary.configuration → dictionary.damaged = false →
      Matched dictionary
        (ofContent dictionary.header dictionary.content.reloaded updatable limits) :=
    fun same undamaged => ⟨rfl, same, rfl, rfl, vocabulary, ⟨represents, undamaged⟩, copied, rfl⟩
  refine ⟨rfl, rfl, rfl, rfl, indistinct_of_represents represents copied rfl, ?_, ?_⟩
  · rintro rfl question
    rfl
  · intro same undamaged alterations admitted admittedOther
    obtain ⟨answers, last⟩ :=
      (matched same undamaged).alterAll alterations admitted admittedOther
    exact ⟨answers, last.indistinct, last.query⟩

/-- A file to which a dictionary was flushed holds its image. -/
theorem exists_image_of_flush {dictionary : Dictionary} {directory written : Directory}
    {name : String} (done : dictionary.flush directory name = (.ok (), written)) :
    ∃ image, Image.encode dictionary.header dictionary.content = .ok image ∧
      written.mapFile name = .ok image.toByteArray := by
  rw [flush] at done
  split at done
  next => cases done
  next =>
    split at done
    next => cases done
    next image encoded =>
      refine ⟨image, encoded, ?_⟩
      dsimp only at done
      rw [Prod.mk.injEq] at done
      obtain ⟨done, rfl⟩ := done
      have replaced : directory.replaceFile name image.toByteArray =
          (.ok (), (directory.replaceFile name image.toByteArray).2) := by
        cases outcome : (directory.replaceFile name image.toByteArray).1 with
        | error fault =>
            rw [outcome] at done
            cases done
        | ok => exact Prod.ext outcome rfl
      exact Directory.mapFile_of_replaceFile replaced

/-- What has an image is flushed where its file is replaced. -/
theorem flush_of_replaceFile {dictionary : Dictionary} {directory written : Directory}
    {name : String} {image : List UInt8} (updatable : dictionary.updatable = true)
    (encoded : Image.encode dictionary.header dictionary.content = .ok image)
    (replaced : directory.replaceFile name image.toByteArray = (.ok (), written)) :
    dictionary.flush directory name = (.ok (), written) := by
  rw [flush, checkUpdatable, if_pos updatable, encoded]
  dsimp only
  rw [replaced]
  rfl

/-- A dictionary whose header does not fit is not flushed, and no file is written. -/
theorem flush_eq_error {dictionary : Dictionary} (wide : ¬ dictionary.header.Storable)
    (updatable : dictionary.updatable = true) (directory : Directory) (name : String) :
    ∃ fault, dictionary.flush directory name = (.error (.format fault), directory) ∧
      Image.HeaderFault fault := by
  obtain ⟨fault, refused, what⟩ := Image.encode_eq_error wide dictionary.content
  refine ⟨fault, ?_, what⟩
  rw [flush, checkUpdatable, if_pos updatable, refused]

/-- A dictionary that came about in any way has an image exactly if its header fits.  A file to which
it is flushed holds that image; and wherever a file holds it, with any bytes before and behind it, the
dictionary is opened from there without a loss.  If its header does not fit, flushing it is refused
and writes nothing. -/
theorem Genuine.flush_restored {dictionary : Dictionary} (genuine : Genuine dictionary) :
    (dictionary.header.Storable →
      ∃ image, Image.encode dictionary.header dictionary.content = .ok image ∧
        (∀ directory name written, dictionary.flush directory name = (.ok (), written) →
          written.mapFile name = .ok image.toByteArray) ∧
        ∀ directory name before after updatable limits,
          Directory.mapFile directory name = .ok (before ++ image ++ after).toByteArray →
            ∃ opened, openFile directory name before.length image.length updatable limits =
                .ok opened ∧
              opened.updatable = updatable ∧ opened.configuration = limits ∧
              Restored dictionary opened) ∧
    (¬ dictionary.header.Storable → dictionary.updatable = true → ∀ directory name,
      ∃ fault, dictionary.flush directory name = (.error (.format fault), directory) ∧
        Image.HeaderFault fault) := by
  have sturdy := genuine.sturdy
  refine ⟨fun fits => ?_, flush_eq_error⟩
  obtain ⟨image, encoded⟩ := sturdy.exists_encode fits
  have some : image ≠ [] := by
    obtain ⟨head, body, _, _, rfl, long⟩ := Image.exists_parts encoded
    exact nofun
  refine ⟨image, encoded, ?_, ?_⟩
  · intro directory name written done
    obtain ⟨other, same, mapped⟩ := exists_image_of_flush done
    cases encoded.symm.trans same
    exact mapped
  · intro directory name before after updatable limits mapped
    exact ⟨_, openFile_between some mapped (sturdy.decode encoded) updatable limits, rfl, rfl,
      sturdy.restored updatable limits⟩

/-- Two words, and a bigram that is removed again. -/
def forgetting : List Operation :=
  [.request (.addUnigram [97] { probability := 7 }),
    .request (.addUnigram [98] { probability := 5 }),
    .request (.addBigram [97] { target := [98], probability := 3 }),
    .request (.removeBigram [97] [98])]

/-- The dictionary that comes of that is opened from the middle of a file. -/
theorem Genuine.flush_restored_forgetting :
    ∃ dictionary image opened,
      ((Session.start (empty ⟨.historical, "en", default⟩ .standard)).drive
        forgetting).dictionary = dictionary ∧
      Genuine dictionary ∧ dictionary.damaged = false ∧ dictionary.superseded = 7 ∧
      Image.encode dictionary.header dictionary.content = .ok image ∧
      openFile ⟨[(["m"], .file ([0] ++ image ++ [1, 2]).toByteArray)]⟩ "m" 1 image.length true
        .standard = .ok opened ∧
      Restored dictionary opened := by
  have created :
      create 403 "en" default .standard = .ok (empty ⟨.historical, "en", default⟩ .standard) := rfl
  have genuine : Genuine ((Session.start (empty ⟨.historical, "en", default⟩ .standard)).drive
      forgetting).dictionary := (Genuine.created created).drive forgetting
  have left : ∀ dictionary, ((Session.start (empty ⟨.historical, "en", default⟩ .standard)).drive
      forgetting).dictionary = dictionary →
        dictionary.header.locale = "en" ∧ dictionary.header.attributes.entries = [] ∧
          dictionary.damaged = false ∧ dictionary.superseded = 7 := by
    rintro _ rfl
    decide +kernel
  generalize ((Session.start (empty ⟨.historical, "en", default⟩ .standard)).drive
    forgetting).dictionary = dictionary at genuine left
  obtain ⟨locale, entries, undamaged, superseded⟩ := left dictionary rfl
  have fits : dictionary.header.Storable := by
    constructor
    · rw [locale]
      decide
    · rw [entries]
      decide
    · rw [entries]
      exact nofun
    · rw [entries]
      exact nofun
  obtain ⟨image, encoded, _, opens⟩ := genuine.flush_restored.1 fits
  have mapped : Directory.mapFile ⟨[(["m"], .file ([0] ++ image ++ [1, 2]).toByteArray)]⟩ "m" =
      .ok ([0] ++ image ++ [1, 2]).toByteArray := Directory.mapFile_lone (by cbv) _
  obtain ⟨opened, done, _, _, restored⟩ := opens _ "m" [0] [1, 2] true .standard mapped
  exact ⟨dictionary, image, opened, rfl, genuine, undamaged, superseded, encoded, done, restored⟩

end Dictionary

end Lexicon

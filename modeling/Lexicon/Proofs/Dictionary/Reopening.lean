/-
Module: Lexicon.Proofs.Dictionary.Reopening
Layer: Proofs
Purpose: A dictionary that is opened from the image of another one says what the other one says.
Imports: Lexicon.Dictionary.Storage, Lexicon.Proofs.Dictionary.Representation,
  Lexicon.Proofs.Forest.Storability, Lexicon.Proofs.Image
Trusted boundary: none
Main exports: Forest.at?_copy, Content.Represents.copy, Dictionary.openFile_between,
  Dictionary.Reopened, Dictionary.Reopened.represents, Dictionary.Reopened.eq_reloaded
-/
import Lexicon.Dictionary.Storage
import Lexicon.Proofs.Dictionary.Representation
import Lexicon.Proofs.Forest.Storability
import Lexicon.Proofs.Image

namespace Lexicon

open Vocabulary

/-! ### Forests without free runs -/

namespace Forest

variable {forest other : Forest}

theorem at?_copy (copied : other.arena = Arena.ofSlots forest.arena.slots) (path : List Int32)
    (key : Int32) : other.at? path key = forest.at? path key := by
  have along : ∀ (path : List Int32) (table : Table),
      Dictionary.descend other table path = Dictionary.descend forest table path := by
    intro path
    induction path with
    | nil => exact fun _ => rfl
    | cons first rest ih =>
        intro table
        simp only [Dictionary.descend, nested?_eq, under?_copy copied, ih]
  simp only [Forest.at?, along, under?_copy copied]

end Forest

/-! ### Contents -/

namespace Content.Represents

variable {content other : Content} {version : FormatVersion} {vocabulary : Vocabulary}

theorem length_le_total (words : List Word) : words.length ≤ total words := by
  induction words with
  | nil => exact Nat.le_refl 0
  | cons first others ih =>
      have positive := recordSize_pos first
      rw [List.length_cons, total_cons]
      omega

/-- What is stored can be read back: the counts are small enough, and so is what is in slots. -/
theorem readable (represents : content.Represents version vocabulary) :
    content.words.arena.Sane ∧ content.followers.arena.Sane ∧
      content.unigramCount < LittleEndian.span 4 ∧ content.bigramCount < LittleEndian.span 4 := by
  obtain ⟨tables, sound⟩ := represents.words
  obtain ⟨tablesFollowers, soundFollowers⟩ := represents.followers
  obtain ⟨tree, laid⟩ := sound.laid
  obtain ⟨treeFollowers, laidFollowers⟩ := soundFollowers.laid
  have four : LittleEndian.span 4 = 4294967296 := rfl
  have limit : Dictionary.maxBufferBytes = 2147483647 := rfl
  have bounded := represents.sizes_le
  have words := length_le_total vocabulary.spelled
  have size := represents.size_terminals
  have count := represents.unigramCount
  have recorded := represents.recorded
  rw [← length_spelled] at count
  exact ⟨laid.sane, laidFollowers.sane, by omega, by omega⟩

/-- A copy says the same. -/
theorem copy (represents : content.Represents version vocabulary)
    (copied : Image.Copied content other) : other.Represents version vocabulary := by
  obtain ⟨tables, sound⟩ := represents.words
  obtain ⟨tablesFollowers, soundFollowers⟩ := represents.followers
  refine ⟨represents.distinct, represents.storable, represents.storableBigram, ?_,
    ⟨tables, sound.copy copied.words⟩, ?_, ⟨tablesFollowers, soundFollowers.copy copied.followers⟩,
    ?_, ?_, copied.unigramCount.trans represents.unigramCount,
    copied.bigramCount.trans represents.bigramCount, ?_, ?_⟩
  · rw [copied.terminals, copied.records]
    exact represents.layout
  · intro path key
    rw [Forest.at?_copy copied.words]
    exact represents.filed path key
  · intro source target record nested has
    rw [Forest.at?_copy copied.followers] at has
    rw [copied.records]
    exact represents.relation has
  · intro first second bigram has
    obtain ⟨low, high, placeFirst, placeSecond, some⟩ := represents.related has
    refine ⟨low, high, placeFirst, placeSecond, ?_⟩
    rw [Forest.at?_copy copied.followers]
    exact some
  · rw [copied.bigramCount, copied.records]
    exact represents.recorded
  · have bounded := represents.bounded
    rw [Content.usedBytes, Forest.usedBytes, Forest.usedBytes] at bounded ⊢
    rw [copied.terminals, copied.records, Forest.slotCount_copy copied.words,
      Forest.slotCount_copy copied.followers]
    exact bounded

end Content.Represents

/-! ### Opening -/

namespace Dictionary

/-- A dictionary that is opened where the image of another one stands. -/
structure Reopened (source opened : Dictionary) : Prop where
  image : ∃ image directory name file offset size updatable limits,
    Image.encode source.header source.content = .ok image ∧
      Directory.mapFile directory name = .ok file ∧
      window file offset size = .ok image.toByteArray ∧
      openFile directory name offset size updatable limits = .ok opened

/-- What is opened is what an accepted image in the window of a file says. -/
theorem exists_of_openFile {directory : Directory} {name : String} {offset size : Nat}
    {updatable : Bool} {limits : Configuration} {opened : Dictionary}
    (done : openFile directory name offset size updatable limits = .ok opened) :
    ∃ file image header content, directory.mapFile name = .ok file ∧
      window file offset size = .ok image ∧ Image.decode image = .ok (header, content) ∧
      opened = ofContent header content updatable limits := by
  rw [openFile] at done
  cases mapped : directory.mapFile name with
  | error fault =>
      rw [mapped] at done
      cases done
  | ok file =>
      rw [mapped] at done
      change (if file.size = 0 then _ else _ : Except Error Dictionary) = _ at done
      split at done
      next => cases done
      next =>
        obtain ⟨image, shown, done⟩ := exists_of_bind done
        obtain ⟨⟨header, content⟩, accepted, done⟩ := exists_of_bind done
        cases done
        exact ⟨file, image, header, content, rfl, shown, accepted, rfl⟩

theorem exists_decode_of_openFile {directory : Directory} {name : String} {file image : ByteArray}
    {offset size : Nat} {updatable : Bool} {limits : Configuration} {opened : Dictionary}
    (mapped : directory.mapFile name = .ok file) (shown : window file offset size = .ok image)
    (done : openFile directory name offset size updatable limits = .ok opened) :
    ∃ header content, Image.decode image = .ok (header, content) ∧
      opened = ofContent header content updatable limits := by
  obtain ⟨other, _, header, content, same, here, accepted, rfl⟩ := exists_of_openFile done
  cases mapped.symm.trans same
  cases shown.symm.trans here
  exact ⟨header, content, accepted, rfl⟩

/-- An image that is accepted is opened from the window in which it stands. -/
theorem openFile_of_window {directory : Directory} {name : String} {file image : ByteArray}
    {offset size : Nat} {header : Header} {content : Content}
    (mapped : directory.mapFile name = .ok file) (some : file.size ≠ 0)
    (shown : window file offset size = .ok image)
    (accepted : Image.decode image = .ok (header, content)) (updatable : Bool)
    (limits : Configuration) :
    openFile directory name offset size updatable limits =
      .ok (ofContent header content updatable limits) := by
  rw [openFile, mapped]
  change (if file.size = 0 then _ else _ : Except Error Dictionary) = _
  rw [if_neg some, shown]
  change (Image.decode image >>= fun answer => _) = _
  rw [accepted]
  rfl

/-- It is opened whatever stands before and behind it in its file. -/
theorem openFile_between {directory : Directory} {name : String} {before image after : List UInt8}
    {header : Header} {content : Content} (some : image ≠ [])
    (mapped : directory.mapFile name = .ok (before ++ image ++ after).toByteArray)
    (accepted : Image.decode image.toByteArray = .ok (header, content)) (updatable : Bool)
    (limits : Configuration) :
    openFile directory name before.length image.length updatable limits =
      .ok (ofContent header content updatable limits) := by
  have positive : 0 < image.length := List.length_pos_iff.mpr some
  have size : (before ++ image ++ after).toByteArray.size =
      before.length + image.length + after.length := by
    rw [List.size_toByteArray, List.length_append, List.length_append]
  refine openFile_of_window mapped (by omega) ?_ accepted updatable limits
  simp only [window, if_neg (Nat.ne_of_gt positive), size, Nat.le_add_right, decide_true,
    Bool.and_true, if_true, Image.extract_between]

/-- A file that holds nothing but an image shows it as a whole. -/
theorem window_whole {image : List UInt8} : window image.toByteArray 0 0 = .ok image.toByteArray := by
  have size : image.toByteArray.size = image.length := List.size_toByteArray
  have whole := Image.extract_between [] image []
  rw [List.nil_append, List.append_nil, List.length_nil, Nat.zero_add] at whole
  simp only [window, if_true, size, Nat.zero_le, Nat.le_refl, decide_true, Bool.and_true, whole]

/-- It is opened from a file that holds nothing else. -/
theorem openFile_whole {directory : Directory} {name : String} {image : List UInt8}
    {header : Header} {content : Content} (some : image ≠ [])
    (mapped : directory.mapFile name = .ok image.toByteArray)
    (accepted : Image.decode image.toByteArray = .ok (header, content)) (updatable : Bool)
    (limits : Configuration) :
    openFile directory name 0 0 updatable limits =
      .ok (ofContent header content updatable limits) := by
  have positive : 0 < image.length := List.length_pos_iff.mpr some
  have size : image.toByteArray.size = image.length := List.size_toByteArray
  exact openFile_of_window mapped (by omega) window_whole accepted updatable limits

/-- What a dictionary has that is opened from the image of a content that represents something. -/
theorem Reopened.copied {source opened : Dictionary} {vocabulary : Vocabulary}
    (reopened : Reopened source opened)
    (represents : source.content.Represents source.version vocabulary) :
    opened.header = source.header ∧ Image.Copied source.content opened.content ∧
      opened.superseded = 0 ∧ opened.damaged = false := by
  obtain ⟨image, directory, name, file, offset, size, updatable, limits, written, mapped, shown,
    done⟩ := reopened.image
  obtain ⟨sane, saneFollowers, few, fewBigrams⟩ := represents.readable
  obtain ⟨header, content, accepted, rfl⟩ := exists_decode_of_openFile mapped shown done
  obtain ⟨same, copied⟩ := Image.decode_encode sane saneFollowers few fewBigrams written accepted
  exact ⟨same, copied, rfl, rfl⟩

/-- A dictionary that is opened from the image of another one says the same, without damage. -/
theorem Reopened.represents {source opened : Dictionary} {vocabulary : Vocabulary}
    (reopened : Reopened source opened)
    (represents : source.content.Represents source.version vocabulary) :
    opened.Represents vocabulary := by
  obtain ⟨header, copied, _, undamaged⟩ := reopened.copied represents
  refine ⟨?_, undamaged⟩
  rw [Dictionary.version, header]
  exact represents.copy copied

/-- Where the image is accepted, what is opened is known altogether. -/
theorem Reopened.eq_reloaded {source opened : Dictionary} (reopened : Reopened source opened)
    (accepted : ∀ {image : List UInt8}, Image.encode source.header source.content = .ok image →
      Image.decode image.toByteArray = .ok (source.header, source.content.reloaded)) :
    ∃ updatable limits,
      opened = ofContent source.header source.content.reloaded updatable limits := by
  obtain ⟨image, directory, name, file, offset, size, updatable, limits, written, mapped, shown,
    done⟩ := reopened.image
  obtain ⟨header, content, known, rfl⟩ := exists_decode_of_openFile mapped shown done
  cases (accepted written).symm.trans known
  exact ⟨updatable, limits, rfl⟩

end Dictionary

end Lexicon

/-
Module: Lexicon.Proofs.Fidelity
Layer: Proofs
Purpose: An image that is accepted is written again as it was if its attributes stand in order, and
  otherwise with the same meaning; nothing in it is skipped, and nothing is left over.
Imports: Lexicon.Proofs.Forest.Fidelity, Lexicon.Proofs.Image
Trusted boundary: none
Main exports: Image.listed, Image.Lists, Image.exists_parts_of_decode, Image.decode_rewritten,
  Image.decode_rewritten_ragged
-/
import Lexicon.Proofs.Forest.Fidelity
import Lexicon.Proofs.Image

namespace Lexicon

open CheckedReader (Consumes Takes Yields)
open Attributes (keyBytes)

/-- The bytes of a part of a buffer. -/
theorem Buffer.bytes_extract (buffer : ByteArray) (start stop : Nat) :
    bytes (buffer.extract start stop) = ((bytes buffer).drop start).take (stop - start) := by
  rw [bytes, ByteArray.data_extract, Array.toList_extract, List.extract_eq_take_drop]
  rfl

namespace Image

/-! ### The attributes as they stand -/

/-- Reads a header for its attributes, in the order in which they stand. -/
def readListed : CheckedReader (List (String × String)) := do
  let _ ← readVersion
  let _ ← readText
  let count ← CheckedReader.ofReader (Reader.number 2)
  readAttributes count []

/-- The attributes of an image in the order in which they stand, with all values that a key has. -/
def listed (image : ByteArray) : List (String × String) :=
  match readListed { bytes := image, position := mark.length } with
  | .ok (fields, _) => fields
  | .error _ => []

/-- Attributes are found as they are listed. -/
theorem Lists.takes_readListed {header : Header} {fields : List (String × String)}
    {encoded : List UInt8} (lists : Lists header fields encoded) :
    Takes readListed encoded fields := by
  rcases lists with ⟨few, locale, pieces, writtenLocale, writtenPieces, rfl⟩
  exact (takes_readVersion header.version).bind ((takes_readText writtenLocale).bind
    ((Takes.of_reads (.number few)).bind (takes_readAttributes writtenPieces [])))

/-- A header that lists attributes fits if it is stored with no more than these. -/
theorem Lists.storable {header : Header} {fields : List (String × String)} {encoded : List UInt8}
    (lists : Lists header fields encoded) (same : header.attributes = .ofList fields) :
    header.Storable := by
  rcases lists with ⟨few, locale, pieces, writtenLocale, writtenPieces, -⟩
  have limit : LittleEndian.span 2 = Header.limit + 1 := rfl
  have fitsLocale := storedIf_encodeText header.locale
  rw [writtenLocale] at fitsLocale
  have fits := StoredIf.mapM fields storedIf_encodeAttribute
  rw [writtenPieces] at fits
  have fewer := Attributes.length_ofList_le fields
  rw [← same] at fewer
  have among : ∀ entry ∈ header.attributes.entries, entry ∈ fields := fun entry member =>
    Attributes.mem_of_ofList (same ▸ member)
  exact ⟨fitsLocale, by omega, fun entry member => (fits entry (among entry member)).1,
    fun entry member => (fits entry (among entry member)).2⟩

/-! ### What the parts of an image were read from -/

theorem consumes_readBlock (length : Nat) : Consumes (readBlock length)
    fun block taken => block.size = length ∧ taken = Buffer.bytes block := by
  intro cursor next block done
  change (if cursor.left < length then CheckedReader.refuse (.fieldOverrun _ _)
    else CheckedReader.ofReader (Reader.block length)) cursor = _ at done
  split at done
  next => cases done
  next =>
    simp only [CheckedReader.ofReader, Reader.block] at done
    split at done
    next outcome found =>
      split at found
      next inside =>
        cases found
        cases done
        have size : (cursor.bytes.extract cursor.position (cursor.position + length)).size =
            length := by
          rw [ByteArray.size_extract]
          omega
        have bytes : Buffer.bytes
            (cursor.bytes.extract cursor.position (cursor.position + length)) =
              cursor.rest.take length := by
          rw [Buffer.bytes_extract, Nat.add_sub_cancel_left]
          rfl
        refine ⟨_, ⟨?_, ?_⟩, size, rfl⟩
        · rw [bytes]
          simp only [Cursor.rest]
          rw [← List.drop_drop, List.take_append_drop]
        · rw [Buffer.length_bytes, size]
      next => cases found
    next => cases done

theorem toUTF8_fromUTF8? {bytes : ByteArray} {text : String}
    (valid : String.fromUTF8? bytes = some text) : text.toUTF8 = bytes := by
  unfold String.fromUTF8? at valid
  split at valid
  next =>
    cases valid
    rfl
  next => cases valid

/-- A text is read from the bytes that are written for it. -/
theorem consumes_readText :
    Consumes readText fun text taken => encodeText text = .ok taken := by
  refine (Consumes.number 2).bind fun length lengthBytes ⟨sameLength, short⟩ =>
    (consumes_readBlock length).bind fun bytes blockBytes ⟨size, sameBlock⟩ => ?_
  subst sameLength sameBlock
  split
  next text valid =>
    refine .pure ?_
    have stored := toUTF8_fromUTF8? valid
    have listing : text.toUTF8.data.toList = Buffer.bytes bytes := by rw [stored]; rfl
    simp only [encodeText, listing, Buffer.length_bytes, size, short, if_true, List.append_nil]
  next => exact .refuse _

/-- Attributes are read from the bytes that are written for them as they are listed. -/
theorem consumes_readAttributes (count : Nat) : ∀ read,
    Consumes (readAttributes count read) fun answer taken =>
      ∃ fields pieces, answer = read.reverse ++ fields ∧ fields.length = count ∧
        fields.mapM encodeAttribute = .ok pieces ∧ taken = pieces.flatten := by
  induction count with
  | zero =>
      intro read
      exact .pure ⟨[], [], (List.append_nil _).symm, rfl, rfl, rfl⟩
  | succ count ih =>
      intro read
      refine consumes_readText.bind fun key keyBytes writtenKey =>
        consumes_readText.bind fun value valueBytes writtenValue => ?_
      intro cursor next answer done
      rcases ih _ _ _ _ done with ⟨behind, passed, fields, pieces, rfl, rfl, written, rfl⟩
      refine ⟨_, passed, (key, value) :: fields, (keyBytes ++ valueBytes) :: pieces, ?_, rfl, ?_, ?_⟩
      · rw [List.reverse_cons, List.append_assoc, List.singleton_append]
      · have first : encodeAttribute (key, value) = .ok (keyBytes ++ valueBytes) := by
          rw [encodeAttribute, writtenKey, writtenValue]
          rfl
        rw [List.mapM_cons, first, written]
        rfl
      · rw [List.flatten_cons, List.append_assoc]

theorem consumes_readVersion : Consumes readVersion
    fun version taken => taken = LittleEndian.encode 4 version.number := by
  refine (Consumes.number 4).bind fun number taken ⟨same, _⟩ => ?_
  subst same
  split
  next version supported =>
    refine .pure ?_
    have back : version.number = number := by
      unfold FormatVersion.ofNumber at supported
      split at supported
      next plain =>
        cases supported
        exact plain.symm
      next =>
        split at supported
        next historical =>
          cases supported
          exact historical.symm
        next => cases supported
    rw [back, List.append_nil]
  next =>
    intro cursor next answer done
    cases done

/-- A header is read from bytes that list its attributes, perhaps in another order, and perhaps with
several values for a key. -/
theorem consumes_readHeader : Consumes readHeader fun header taken =>
    ∃ fields, header.attributes = .ofList fields ∧ Lists header fields taken := by
  refine consumes_readVersion.bind fun version versionBytes sameVersion =>
    consumes_readText.bind fun locale localeBytes writtenLocale =>
      (Consumes.number 2).bind fun count countBytes ⟨sameCount, few⟩ =>
        (consumes_readAttributes count []).bind fun attributes taken read => .pure ?_
  rcases read with ⟨fields, pieces, rfl, rfl, written, rfl⟩
  subst sameVersion sameCount
  exact ⟨attributes, rfl, few, localeBytes, pieces, writtenLocale, written, by simp⟩

theorem consumes_readBuffer :
    Consumes readBuffer fun buffer taken => encodeBuffer buffer = .ok taken := by
  refine (Consumes.number 4).bind fun length lengthBytes ⟨sameLength, short⟩ => ?_
  subst sameLength
  intro cursor next buffer done
  rcases consumes_readBlock length _ _ _ done with ⟨taken, passed, rfl, rfl⟩
  refine ⟨_, passed, ?_⟩
  exact if_pos short

/-- What is known of a content that was read: its bytes give it again. -/
structure Settled (content : Content) : Prop where
  kept : content.reloaded = content
  words : Takes Forest.read content.words.encode content.words.reloaded
  followers : Takes Forest.read content.followers.encode content.followers.reloaded
  few : content.unigramCount < LittleEndian.span 4
  fewBigrams : content.bigramCount < LittleEndian.span 4

/-- A content is read from the bytes that are written for it. -/
theorem consumes_readContent : Consumes readContent fun content taken =>
    encodeContent content = .ok taken ∧ Settled content := by
  have forest := Forest.consumes_read.and_yields Forest.yields_takes
  refine (Consumes.number 4).bind fun unigramCount unigramBytes ⟨sameUnigrams, few⟩ =>
    (Consumes.number 4).bind fun bigramCount bigramBytes ⟨sameBigrams, fewBigrams⟩ =>
      forest.bind fun words wordBytes ⟨sameWords, keptWords, takesWords⟩ =>
        forest.bind fun followers followerBytes ⟨sameFollowers, keptFollowers, takesFollowers⟩ =>
          consumes_readBuffer.bind fun terminals terminalBytes writtenTerminals =>
            consumes_readBuffer.bind fun records recordBytes writtenRecords => .pure ⟨?_, ?_⟩
  · subst sameUnigrams sameBigrams sameWords sameFollowers
    rw [encodeContent, writtenTerminals, writtenRecords]
    simp [bind, Except.bind, pure, Except.pure]
  · refine ⟨?_, takesWords, takesFollowers, few, fewBigrams⟩
    rw [Content.reloaded, keptWords, keptFollowers]

/-- The body of an image is read to its last byte from the bytes of a header and of a content. -/
theorem body_of_readBody {cursor last : Cursor} {header : Header} {content : Content}
    (done : readBody cursor = .ok ((header, content), last)) :
    ∃ head body fields, cursor.rest = head ++ body ∧ header.attributes = .ofList fields ∧
      Lists header fields head ∧ encodeContent content = .ok body ∧ Settled content := by
  rcases exists_of_bind done with ⟨⟨found, behind⟩, readHead, done⟩
  rcases exists_of_bind done with ⟨⟨further, last⟩, readRest, done⟩
  rcases consumes_readHeader _ _ _ readHead with ⟨head, passedHead, fields, same, lists⟩
  rcases consumes_readContent _ _ _ readRest with ⟨body, passedBody, written, settled⟩
  change (if last.left = 0 then pure (found, further)
    else CheckedReader.refuse (.trailingBytes last.left) : CheckedReader _) last = _ at done
  split at done
  next empty =>
    cases done
    have nothing : last.rest = [] := by
      rw [← List.length_eq_zero_iff, Cursor.length_rest]
      exact empty
    refine ⟨head, body, fields, ?_, same, lists, written, settled⟩
    rw [passedHead.view, passedBody.view, nothing, List.append_nil]
  next => cases done

/-- What is checked before an image is accepted. -/
theorem decode_eq_ok {image : ByteArray} {answer : Header × Content}
    (accepted : decode image = .ok answer) :
    mark.length + checksumSize ≤ image.size ∧
      Buffer.bytes (image.extract 0 mark.length) = mark ∧
      LittleEndian.decode (Buffer.bytes (image.extract (image.size - checksumSize) image.size)) =
        Checksum.ofBytes (Buffer.bytes (image.extract 0 (image.size - checksumSize))) ∧
      ∃ last, readBody ⟨image.extract 0 (image.size - checksumSize), mark.length⟩ =
        .ok (answer, last) := by
  simp only [decode] at accepted
  split at accepted
  next => cases accepted
  next good =>
    simp only [Bool.or_eq_true, decide_eq_true_eq, not_or, not_lt, ne_eq, not_not] at good
    split at accepted
    next => cases accepted
    next agrees =>
      split at accepted
      next read last done =>
        cases accepted
        exact ⟨by omega, good.2, not_not.mp agrees, last, done⟩
      next => cases accepted
      next => cases accepted

/-- An accepted image is the bytes of a header that lists some attributes and of a content, with
its mark and its checksum. -/
theorem exists_parts_of_decode {image : ByteArray} {header : Header} {content : Content}
    (accepted : decode image = .ok (header, content)) :
    ∃ head body fields, Buffer.bytes image = withChecksum (mark ++ (head ++ body)) ∧
      header.attributes = .ofList fields ∧ Lists header fields head ∧
        encodeContent content = .ok body ∧ Settled content := by
  rcases decode_eq_ok accepted with ⟨long, marked, agrees, last, done⟩
  rcases body_of_readBody done with ⟨head, body, fields, view, rest⟩
  refine ⟨head, body, fields, ?_, rest⟩
  have size := Buffer.length_bytes image
  rw [Buffer.bytes_extract, List.drop_zero, Nat.sub_zero] at marked
  have front : Buffer.bytes (image.extract 0 (image.size - checksumSize)) =
      (Buffer.bytes image).take (image.size - checksumSize) := by
    rw [Buffer.bytes_extract, List.drop_zero, Nat.sub_zero]
  have back : Buffer.bytes (image.extract (image.size - checksumSize) image.size) =
      (Buffer.bytes image).drop (image.size - checksumSize) := by
    rw [Buffer.bytes_extract]
    refine List.take_of_length_le ?_
    rw [List.length_drop, size]
  have inner : (Buffer.bytes image).take (image.size - checksumSize) = mark ++ (head ++ body) := by
    have opening : ((Buffer.bytes image).take (image.size - checksumSize)).take mark.length =
        mark := by
      rw [List.take_take, Nat.min_eq_left (by omega), marked]
    rw [← view, Cursor.rest, ← Buffer.bytes, front]
    conv_lhs => rw [← List.take_append_drop mark.length
      ((Buffer.bytes image).take (image.size - checksumSize)), opening]
  have closing := LittleEndian.encode_decode
    ((Buffer.bytes image).drop (image.size - checksumSize))
  rw [back, front, inner] at agrees
  rw [List.length_drop, size, Nat.sub_sub_self (by omega), agrees] at closing
  rw [withChecksum, closing, ← inner, List.take_append_drop]

/-! ### Writing an accepted image again -/

/-- The attributes of an image are found as its header lists them. -/
theorem listed_eq {image : ByteArray} {header : Header} {head body : List UInt8}
    {fields : List (String × String)}
    (same : Buffer.bytes image = withChecksum (mark ++ (head ++ body)))
    (lists : Lists header fields head) : listed image = fields := by
  have rest : Cursor.rest ⟨image, mark.length⟩ = head ++ (body ++
      LittleEndian.encode checksumSize (Checksum.ofBytes (mark ++ (head ++ body)))) := by
    rw [Cursor.rest, ← Buffer.bytes, same, withChecksum, List.append_assoc, List.drop_left,
      List.append_assoc]
  have inside : mark.length ≤ image.size := by
    rw [← Buffer.length_bytes, same, withChecksum, List.append_assoc, List.length_append]
    exact Nat.le_add_right _ _
  rw [listed, lists.takes_readListed _ _ ⟨inside, rest⟩]

/-- An image that is accepted, whoever wrote it, is stored again from the header and the content that
it gives.  That yields its very bytes if its attributes stand strictly in the order of their keys,
and only then.  Otherwise the last value of each key was kept, and the new image gives the same header
and the same content.  A forest that is read for itself is written as the bytes that were taken
for it, whatever its slots hold. -/
theorem decode_rewritten :
    (∀ (image : ByteArray) (header : Header) (content : Content),
      decode image = .ok (header, content) →
        (∀ key, header.attributes.get? key =
          ((listed image).filter fun entry => entry.1 = key).getLast?.map (·.2)) ∧
        ∃ again, encode header content = .ok again ∧
          (again = Buffer.bytes image ↔
            (listed image).Pairwise fun first second => keyBytes first.1 < keyBytes second.1) ∧
          decode again.toByteArray = .ok (header, content)) ∧
      ∀ (cursor next : Cursor) (forest : Forest), Forest.read cursor = .ok (forest, next) →
        cursor.rest = forest.encode ++ next.rest ∧
          forest.encode.length = 12 + 16 * forest.slotCount ∧
          next.position = cursor.position + forest.encode.length := by
  constructor
  · intro image header content accepted
    rcases exists_parts_of_decode accepted with
      ⟨head, body, fields, bytes, same, lists, written, settled⟩
    rcases settled with ⟨kept, words, followers, few, fewBigrams⟩
    rcases exists_encode_of_parts (lists.storable same) written with ⟨proper, writtenHead, encoded⟩
    rw [listed_eq bytes lists]
    refine ⟨fun key => same ▸ Attributes.get?_ofList fields key, _, encoded, ?_, ?_⟩
    · constructor
      · intro equal
        have listing : Lists header header.attributes.entries proper :=
          encodeHeader_eq_ok_iff.mp writtenHead
        have unchanged : header.attributes.entries = fields :=
          (listed_eq equal.symm listing).symm.trans (listed_eq bytes lists)
        exact unchanged ▸ header.attributes.ordered
      · intro ordered
        have unchanged : header.attributes.entries = fields :=
          same ▸ Attributes.entries_ofList ordered
        have again := encodeHeader_eq_ok_iff.mpr (unchanged.symm ▸ lists)
        rw [writtenHead] at again
        cases again
        exact bytes.symm
    · have back := decode_eq words followers few fewBigrams encoded
      rwa [kept] at back
  · intro cursor next forest done
    rcases Forest.consumes_read _ _ _ done with ⟨taken, passed, rfl⟩
    refine ⟨passed.view, ?_, ?_⟩
    · rw [Forest.length_encode, Forest.usedBytes, Nat.mul_comm]
      rfl
    · rw [passed.moved]

/-- A content with a root of which spare bits are set, with a slot that no table has, and with counts
that are wrong. -/
def ragged : Content :=
  { words := ⟨.ofSlots #[.node LabelSet.empty 0 5, .entry 7 1 none], 9⟩
    followers := ⟨.ofSlots #[Slot.empty], 0⟩
    bigramCount := 3 }

/-- Its image with attributes out of order is not written again as it was, but means the same. -/
theorem decode_rewritten_ragged :
    ∃ image header, decode image = .ok (header, ragged) ∧
      listed image = [("b", "1"), ("a", "2"), ("b", "3")] ∧
      header.attributes.get? "b" = some "3" ∧
      (∃ again, encode header ragged = .ok again ∧ again ≠ Buffer.bytes image ∧
        decode again.toByteArray = .ok (header, ragged)) ∧
      ∃ next, Forest.read ⟨ragged.words.encode.toByteArray, 0⟩ = .ok (ragged.words, next) ∧
        ragged.words.encode.toByteArray.data.toList = ragged.words.encode ++ next.rest ∧
          next.position = 44 := by
  let fields := [("b", "1"), ("a", "2"), ("b", "3")]
  let header : Header := ⟨.plain, "en", .ofList fields⟩
  have words : Takes Forest.read ragged.words.encode ragged.words.reloaded :=
    Forest.takes_read_ofSlots (by decide) (by decide) (by decide +kernel) rfl (by decide +kernel)
      (by decide)
  have followers : Takes Forest.read ragged.followers.encode ragged.followers.reloaded :=
    Forest.takes_read_ofSlots (by decide) (by decide) (by decide +kernel) rfl (by decide +kernel)
      (by decide)
  obtain ⟨body, written⟩ : ∃ body, encodeContent ragged = .ok body :=
    exists_encodeContent (by decide) (by decide)
  obtain ⟨head, lists⟩ : ∃ head, Lists header fields head :=
    ⟨_, by decide, _, _, rfl, rfl, rfl⟩
  have long : 4 ≤ (head ++ body).length := by
    obtain ⟨_, _, _, _, _, rfl⟩ := lists
    simp
  have accepted : decode (withChecksum (mark ++ (head ++ body))).toByteArray =
      .ok (header, ragged.reloaded) :=
    decode_of_takes long (lists.takes_readHeader rfl)
      (takes_readContent words followers (by decide) (by decide) written)
  have listing : listed (withChecksum (mark ++ (head ++ body))).toByteArray = fields :=
    listed_eq (List.toList_data_toByteArray ..) lists
  obtain ⟨last, again, encoded, same, back⟩ := decode_rewritten.1 _ _ _ accepted
  rw [listing] at last same
  refine ⟨_, header, accepted, listing, last "b", ⟨again, encoded, ?_, back⟩, ?_⟩
  · intro equal
    exact absurd (same.mp equal) (by decide)
  · have shows : Cursor.Shows ⟨ragged.words.encode.toByteArray, 0⟩ (ragged.words.encode ++ []) :=
      ⟨Nat.zero_le _, by rw [List.append_nil]; exact List.toList_data_toByteArray ..⟩
    have done := words _ _ shows
    obtain ⟨view, length, moved⟩ := decode_rewritten.2 _ _ _ done
    exact ⟨_, done, view, moved.trans (by rw [Nat.zero_add, length]; rfl)⟩

end Image

end Lexicon

/-
Module: Lexicon.Proofs.Image
Layer: Proofs
Purpose: Which headers and contents are stored, and that their images are read back as they were
  written, but for free runs.
Imports: Lexicon.Image, Lexicon.Proofs.Forest.Storage, Lexicon.Proofs.Header
Trusted boundary: none
Main exports: Image.Lists, Image.HeaderFault, Image.storedIf_encodeHeader, Image.exists_encode,
  Image.encode_eq_error, Image.Copied, Image.decode_encode, Content.reloaded, Image.decode_eq
-/
import Lexicon.Image
import Lexicon.Proofs.Forest.Storage
import Lexicon.Proofs.Header

namespace Lexicon

open Reader (Reads)
open CheckedReader (Gives Takes)

/-- A content as it is read back: nothing in its forests is free. -/
def Content.reloaded (content : Content) : Content :=
  { content with words := content.words.reloaded, followers := content.followers.reloaded }

namespace Image

/-! ### Blocks, texts and buffers -/

/-- A block of bytes is read back as it was written. -/
theorem takes_readBlock (block : ByteArray) :
    Takes (readBlock block.size) (Buffer.bytes block) block := by
  rintro cursor after ⟨inside, view⟩
  have length : (Buffer.bytes block).length = block.size := Buffer.length_bytes block
  have left : block.size ≤ cursor.left := by
    rw [← Cursor.length_rest, view, List.length_append, length]
    exact Nat.le_add_right _ _
  have ends : cursor.position + block.size ≤ cursor.bytes.size := by
    rw [Cursor.left] at left
    omega
  have taken : cursor.bytes.extract cursor.position (cursor.position + block.size) = block := by
    apply ByteArray.ext
    apply Array.toList_inj.mp
    rw [Cursor.rest] at view
    rw [ByteArray.data_extract, Array.toList_extract, List.extract_eq_take_drop, view,
      Nat.add_sub_cancel_left, ← length, List.take_left]
    rfl
  show (if cursor.left < block.size then CheckedReader.refuse (.fieldOverrun _ _)
    else CheckedReader.ofReader (Reader.block block.size)) cursor = _
  rw [if_neg (Nat.not_lt.mpr left), CheckedReader.ofReader, Reader.block, if_pos ends, taken,
    length]

theorem fromUTF8?_toUTF8 (text : String) : String.fromUTF8? text.toUTF8 = some text := by
  unfold String.fromUTF8?
  rw [String.toUTF8_eq_toByteArray, dif_pos text.isValidUTF8]
  rfl

theorem takes_readText {text : String} {encoded : List UInt8}
    (written : encodeText text = .ok encoded) : Takes readText encoded text := by
  simp only [encodeText] at written
  split at written
  next fits =>
    cases written
    have parts : Takes readText (LittleEndian.encode 2 text.toUTF8.data.toList.length ++
        (Buffer.bytes text.toUTF8 ++ [])) text := by
      refine (Takes.of_reads (Reads.number fits)).bind ?_
      rw [show text.toUTF8.data.toList.length = text.toUTF8.size from Buffer.length_bytes _]
      refine (takes_readBlock _).bind ?_
      rw [fromUTF8?_toUTF8]
      exact .pure text
    rwa [List.append_nil] at parts
  next => cases written

theorem takes_readAttributes {entries : List (String × String)} {fields : List (List UInt8)}
    (written : entries.mapM encodeAttribute = .ok fields) :
    ∀ read, Takes (readAttributes entries.length read) fields.flatten (read.reverse ++ entries) := by
  induction entries generalizing fields with
  | nil =>
      cases written
      intro read
      rw [List.append_nil]
      exact .pure _
  | cons entry entries ih =>
      intro read
      rw [List.mapM_cons] at written
      obtain ⟨field, first, written⟩ := exists_of_bind written
      obtain ⟨rest, others, written⟩ := exists_of_bind written
      cases written
      obtain ⟨key, writtenKey, first⟩ := exists_of_bind first
      obtain ⟨value, writtenValue, first⟩ := exists_of_bind first
      cases first
      have behind := ih others (entry :: read)
      rw [List.reverse_cons, List.append_assoc] at behind
      rw [List.flatten_cons, List.append_assoc]
      exact (takes_readText writtenKey).bind ((takes_readText writtenValue).bind behind)

/-- The bytes of a header, but for the attributes, which stand as they are listed. -/
structure Lists (header : Header) (fields : List (String × String)) (encoded : List UInt8) :
    Prop where
  few : fields.length < LittleEndian.span 2
  spelled : ∃ locale pieces, encodeText header.locale = .ok locale ∧
    fields.mapM encodeAttribute = .ok pieces ∧
      encoded = LittleEndian.encode 4 header.version.number ++
        (locale ++ (LittleEndian.encode 2 fields.length ++ pieces.flatten))

/-- A header is stored with its attributes in order. -/
theorem encodeHeader_eq_ok_iff {header : Header} {encoded : List UInt8} :
    encodeHeader header = .ok encoded ↔ Lists header header.attributes.entries encoded := by
  constructor
  · intro written
    rcases exists_of_bind written with ⟨locale, writtenLocale, written⟩
    rcases exists_of_bind written with ⟨attributes, writtenAttributes, written⟩
    cases written
    simp only [encodeAttributes] at writtenAttributes
    split at writtenAttributes
    next few =>
      rcases exists_of_bind writtenAttributes with ⟨pieces, writtenPieces, writtenAttributes⟩
      cases writtenAttributes
      exact ⟨few, locale, pieces, writtenLocale, writtenPieces, rfl⟩
    next => cases writtenAttributes
  · rintro ⟨few, locale, pieces, writtenLocale, writtenPieces, rfl⟩
    rw [encodeHeader, encodeAttributes, writtenLocale, if_pos few, writtenPieces]
    rfl

theorem takes_readVersion (version : FormatVersion) :
    Takes readVersion (LittleEndian.encode 4 version.number) version := by
  have number : version.number < LittleEndian.span 4 := by
    cases version <;> decide
  have parts : Takes readVersion (LittleEndian.encode 4 version.number ++ []) version := by
    refine (Takes.of_reads (.number number)).bind ?_
    rw [FormatVersion.ofNumber_number]
    exact .pure _
  rwa [List.append_nil] at parts

/-- A header is read from bytes that list its attributes, in any order and with more values. -/
theorem Lists.takes_readHeader {header : Header} {fields : List (String × String)}
    {encoded : List UInt8} (lists : Lists header fields encoded)
    (same : header.attributes = .ofList fields) : Takes readHeader encoded header := by
  rcases lists with ⟨few, locale, pieces, writtenLocale, writtenPieces, rfl⟩
  have parts : Takes readHeader (LittleEndian.encode 4 header.version.number ++ (locale ++
      (LittleEndian.encode 2 fields.length ++ (pieces.flatten ++ [])))) header := by
    refine (takes_readVersion header.version).bind ((takes_readText writtenLocale).bind
      ((Takes.of_reads (Reads.number few)).bind ((takes_readAttributes writtenPieces []).bind ?_)))
    rw [List.reverse_nil, List.nil_append, ← same]
    exact .pure header
  rwa [List.append_nil] at parts

/-- A header is read back as it was written. -/
theorem takes_readHeader {header : Header} {encoded : List UInt8}
    (written : encodeHeader header = .ok encoded) : Takes readHeader encoded header :=
  (encodeHeader_eq_ok_iff.mp written).takes_readHeader
    (Attributes.ofList_entries header.attributes).symm

theorem takes_readBuffer {buffer : ByteArray} {encoded : List UInt8}
    (written : encodeBuffer buffer = .ok encoded) : Takes readBuffer encoded buffer := by
  rw [encodeBuffer] at written
  split at written
  next fits =>
    cases written
    exact (Takes.of_reads (Reads.number fits)).bind (takes_readBlock buffer)
  next => cases written

/-! ### What is stored -/

/-- What is wrong with a header that is not stored. -/
def HeaderFault (fault : FormatFault) : Prop :=
  fault = .tooManyAttributes ∨ ∃ length, Header.limit < length ∧ fault = .headerTextTooLong length

/-- Something is stored exactly if it fits. -/
def StoredIf {α : Type} (fits : Prop) (outcome : Except Error α) : Prop :=
  match outcome with
  | .ok _ => fits
  | .error error => ¬ fits ∧ ∃ fault, error = .format fault ∧ HeaderFault fault

namespace StoredIf

variable {α β : Type} {fits further : Prop}

theorem bind {first : Except Error α} {next : α → Except Error β} (stored : StoredIf fits first)
    (rest : ∀ value, StoredIf further (next value)) : StoredIf (fits ∧ further) (first >>= next) := by
  cases first with
  | error error => exact ⟨fun both => stored.1 both.1, stored.2⟩
  | ok value =>
      have behind := rest value
      show StoredIf _ (next value)
      generalize next value = outcome at behind
      cases outcome with
      | error error => exact ⟨fun both => behind.1 both.2, behind.2⟩
      | ok answer => exact ⟨stored, behind⟩

theorem map {first : Except Error α} (stored : StoredIf fits first) (make : α → β) :
    StoredIf fits (first >>= fun value => pure (make value)) := by
  cases first with
  | error error => exact stored
  | ok value => exact stored

theorem mapM (items : List α) {make : α → Except Error β} {fits : α → Prop}
    (each : ∀ item, StoredIf (fits item) (make item)) :
    StoredIf (∀ item ∈ items, fits item) (items.mapM make) := by
  induction items with
  | nil => exact nofun
  | cons item items ih =>
      rw [List.mapM_cons]
      have both := (each item).bind fun made => ih.map fun others => made :: others
      simpa only [List.forall_mem_cons] using both

end StoredIf

theorem storedIf_encodeText (text : String) :
    StoredIf (text.toUTF8.size ≤ Header.limit) (encodeText text) := by
  have length : text.toUTF8.data.toList.length = text.toUTF8.size := Buffer.length_bytes _
  have limit : LittleEndian.span 2 = Header.limit + 1 := rfl
  simp only [encodeText, length, limit]
  split
  next fits => exact Nat.le_of_lt_succ fits
  next wide => exact ⟨by omega, _, rfl, .inr ⟨_, by omega, rfl⟩⟩

theorem storedIf_encodeAttribute (entry : String × String) :
    StoredIf (entry.1.toUTF8.size ≤ Header.limit ∧ entry.2.toUTF8.size ≤ Header.limit)
      (encodeAttribute entry) :=
  (storedIf_encodeText entry.1).bind fun _ => (storedIf_encodeText entry.2).map _

/-- A header is stored exactly if its texts, and the number of its attributes, fit. -/
theorem storedIf_encodeHeader (header : Header) :
    StoredIf header.Storable (encodeHeader header) := by
  have limit : LittleEndian.span 2 = Header.limit + 1 := rfl
  have attributes : StoredIf (header.attributes.entries.length ≤ Header.limit ∧
      ∀ entry ∈ header.attributes.entries,
        entry.1.toUTF8.size ≤ Header.limit ∧ entry.2.toUTF8.size ≤ Header.limit)
      (encodeAttributes header.attributes) := by
    rw [encodeAttributes, limit]
    split
    next few =>
      have fields := (StoredIf.mapM header.attributes.entries storedIf_encodeAttribute).map
        fun fields => LittleEndian.encode 2 header.attributes.entries.length ++ fields.flatten
      rw [show (header.attributes.entries.length ≤ Header.limit ∧ _) ↔ _ from
        and_iff_right (Nat.le_of_lt_succ few)]
      exact fields
    next many => exact ⟨fun fits => many (Nat.lt_succ_of_le fits.1), _, rfl, .inl rfl⟩
  have whole := (storedIf_encodeText header.locale).bind fun locale =>
    attributes.map fun attributes =>
      LittleEndian.encode 4 header.version.number ++ (locale ++ attributes)
  have same : header.Storable ↔ header.locale.toUTF8.size ≤ Header.limit ∧
      header.attributes.entries.length ≤ Header.limit ∧
        ∀ entry ∈ header.attributes.entries,
          entry.1.toUTF8.size ≤ Header.limit ∧ entry.2.toUTF8.size ≤ Header.limit :=
    ⟨fun fits => ⟨fits.locale, fits.few, fun entry among => ⟨fits.key entry among,
        fits.value entry among⟩⟩,
      fun fits => ⟨fits.1, fits.2.1, fun entry among => (fits.2.2 entry among).1,
        fun entry among => (fits.2.2 entry among).2⟩⟩
  rw [same]
  exact whole

theorem exists_encodeContent {content : Content}
    (terminals : content.terminals.size < LittleEndian.span 4)
    (records : content.records.size < LittleEndian.span 4) :
    ∃ encoded, encodeContent content = .ok encoded := by
  rw [encodeContent, encodeBuffer, encodeBuffer, if_pos terminals, if_pos records]
  exact ⟨_, rfl⟩

/-- What is written for a header and a content that fit. -/
theorem exists_encode_of_parts {header : Header} {content : Content} {body : List UInt8}
    (fits : header.Storable) (written : encodeContent content = .ok body) :
    ∃ head, encodeHeader header = .ok head ∧
      encode header content = .ok (withChecksum (mark ++ (head ++ body))) := by
  have stored := storedIf_encodeHeader header
  rw [encode, written]
  generalize encodeHeader header = outcome at stored
  cases outcome with
  | error error => exact absurd fits stored.1
  | ok head => exact ⟨head, rfl, rfl⟩

/-- A dictionary whose header and buffers fit has an image. -/
theorem exists_encode {header : Header} {content : Content} (fits : header.Storable)
    (terminals : content.terminals.size < LittleEndian.span 4)
    (records : content.records.size < LittleEndian.span 4) :
    ∃ image, encode header content = .ok image := by
  obtain ⟨body, written⟩ := exists_encodeContent terminals records
  obtain ⟨_, _, encoded⟩ := exists_encode_of_parts fits written
  exact ⟨_, encoded⟩

/-- A dictionary whose header does not fit has none. -/
theorem encode_eq_error {header : Header} (wide : ¬ header.Storable) (content : Content) :
    ∃ fault, encode header content = .error (.format fault) ∧ HeaderFault fault := by
  have stored := storedIf_encodeHeader header
  rw [encode]
  generalize encodeHeader header = outcome at stored
  cases outcome with
  | error error =>
      obtain ⟨_, fault, rfl, what⟩ := stored
      exact ⟨fault, rfl, what⟩
  | ok head => exact absurd stored wide

/-! ### Contents and images -/

/-- A content has the slots, the buffers and the counts of another one.  Its forests have no free
runs. -/
structure Copied (content copy : Content) : Prop where
  words : copy.words.arena = Arena.ofSlots content.words.arena.slots
  followers : copy.followers.arena = Arena.ofSlots content.followers.arena.slots
  terminals : copy.terminals = content.terminals
  records : copy.records = content.records
  unigramCount : copy.unigramCount = content.unigramCount
  bigramCount : copy.bigramCount = content.bigramCount

/-- Counting what is left takes nothing. -/
theorem gives_left : Gives (CheckedReader.ofReader Reader.left) [] fun _ => True := by
  intro cursor after _ answer next done
  cases done
  exact ⟨trivial, rfl⟩

theorem gives_readContent {content : Content} {encoded : List UInt8}
    (sane : content.words.arena.Sane) (saneFollowers : content.followers.arena.Sane)
    (few : content.unigramCount < LittleEndian.span 4)
    (fewBigrams : content.bigramCount < LittleEndian.span 4)
    (written : encodeContent content = .ok encoded) :
    Gives readContent encoded (Copied content) := by
  obtain ⟨terminals, writtenTerminals, written⟩ := exists_of_bind written
  obtain ⟨records, writtenRecords, written⟩ := exists_of_bind written
  cases written
  have parts : Gives readContent (LittleEndian.encode 4 content.unigramCount ++
      (LittleEndian.encode 4 content.bigramCount ++ (content.words.encode ++
        (content.followers.encode ++ (terminals ++ (records ++ [])))))) (Copied content) := by
    refine (Gives.of_reads (Reads.number few) rfl).bind ?_
    rintro _ rfl
    refine (Gives.of_reads (Reads.number fewBigrams) rfl).bind ?_
    rintro _ rfl
    refine (Forest.gives_read sane).bind fun words => ?_
    refine (Forest.gives_read saneFollowers).bind fun followers => ?_
    refine ((takes_readBuffer writtenTerminals).gives rfl).bind ?_
    rintro _ rfl
    refine ((takes_readBuffer writtenRecords).gives rfl).bind ?_
    rintro _ rfl
    exact .pure ⟨words, followers, rfl, rfl, rfl, rfl⟩
  simpa using parts

/-- What lies between other bytes is found there. -/
theorem extract_between (before between after : List UInt8) :
    (before ++ between ++ after).toByteArray.extract before.length
      (before.length + between.length) = between.toByteArray := by
  apply ByteArray.ext
  apply Array.toList_inj.mp
  rw [ByteArray.data_extract, Array.toList_extract, List.extract_eq_take_drop,
    List.toList_data_toByteArray, List.toList_data_toByteArray, List.append_assoc, List.drop_left,
    Nat.add_sub_cancel_left, List.take_left]

theorem ofBytes_lt (bytes : List UInt8) : Checksum.ofBytes bytes < LittleEndian.span checksumSize := by
  have small : ∀ (bytes : List UInt8) (sums : Checksum), sums.low < Checksum.modulus →
      sums.high < Checksum.modulus → (bytes.foldl Checksum.add sums).value <
        LittleEndian.span checksumSize := by
    intro bytes
    induction bytes with
    | nil =>
        intro sums low high
        have modulus : Checksum.modulus = 65521 := rfl
        have four : LittleEndian.span checksumSize = 4294967296 := rfl
        rw [List.foldl_nil, Checksum.value]
        omega
    | cons byte bytes ih =>
        intro sums _ _
        exact ih _ (Nat.mod_lt _ (by decide)) (Nat.mod_lt _ (by decide))
  exact small bytes .start (by decide) (by decide)

/-- What becomes of bytes that end in a checksum, right or not. -/
theorem decode_append (body : List UInt8) {closing : List UInt8}
    (length : closing.length = checksumSize) :
    decode (body ++ closing).toByteArray =
      if body.length < mark.length + 4 ∨ body.take mark.length ≠ mark then
        .error (.format .notAnImage)
      else if LittleEndian.decode closing ≠ Checksum.ofBytes body then
        .error (.checksumMismatch (LittleEndian.decode closing) (Checksum.ofBytes body))
      else
        match readBody { bytes := body.toByteArray, position := mark.length } with
        | .ok (answer, _) => .ok answer
        | .error (.file .endOfFile) => .error (.format .truncated)
        | .error error => .error error := by
  have size : (body ++ closing).toByteArray.size = body.length + checksumSize := by
    rw [List.size_toByteArray, List.length_append, length]
  have inside : (body ++ closing).toByteArray.extract 0 body.length = body.toByteArray := by
    have found := extract_between [] body closing
    rwa [List.nil_append, List.length_nil, Nat.zero_add] at found
  have ends : (body ++ closing).toByteArray.extract body.length (body.length + checksumSize) =
      closing.toByteArray := by
    have found := extract_between body closing []
    rwa [List.append_nil, length] at found
  have begins : ((body ++ closing).toByteArray.extract 0 mark.length).data.toList =
      (body ++ closing).take mark.length := by
    rw [ByteArray.data_extract, Array.toList_extract, List.extract_eq_take_drop, List.drop_zero,
      List.toList_data_toByteArray, Nat.sub_zero]
  have four : mark.length = 4 := rfl
  have short : (decide (body.length + checksumSize < mark.length + 4 + checksumSize) ||
      decide ((body ++ closing).take mark.length ≠ mark)) = true ↔
        (body.length < mark.length + 4 ∨ body.take mark.length ≠ mark) := by
    rw [Bool.or_eq_true, decide_eq_true_eq, decide_eq_true_eq, Nat.add_lt_add_iff_right]
    by_cases long : body.length < mark.length + 4
    · simp only [long, true_or]
    · rw [List.take_append_of_le_length (by omega)]
  simp only [decode, size, begins, Nat.add_sub_cancel, inside, ends, List.toList_data_toByteArray]
  exact if_congr short rfl rfl

/-- An image with its mark and its checksum is opened, and its body is read to its end. -/
theorem decode_withChecksum {body : List UInt8} (long : 4 ≤ body.length) :
    decode (withChecksum (mark ++ body)).toByteArray =
      match readBody { bytes := (mark ++ body).toByteArray, position := mark.length } with
      | .ok (answer, _) => .ok answer
      | .error (.file .endOfFile) => .error (.format .truncated)
      | .error error => .error error := by
  have whole : ¬ ((mark ++ body).length < mark.length + 4 ∨
      (mark ++ body).take mark.length ≠ mark) := by
    rintro (short | unmarked)
    · rw [List.length_append] at short
      omega
    · exact unmarked List.take_left
  have agrees : LittleEndian.decode
      (LittleEndian.encode checksumSize (Checksum.ofBytes (mark ++ body))) =
        Checksum.ofBytes (mark ++ body) := LittleEndian.decode_encode_of_lt (ofBytes_lt _)
  rw [withChecksum, decode_append _ (LittleEndian.length_encode _ _), if_neg whole,
    if_neg (not_not.mpr agrees)]

/-- A header and what is behind it are read, to the last byte. -/
theorem readBody_eq {cursor : Cursor} {head body : List UInt8} {header : Header} {content : Content}
    (takesHeader : Takes readHeader head header) (takes : Takes readContent body content)
    (shows : cursor.Shows (head ++ body)) :
    ∃ last, readBody cursor = .ok ((header, content), last) := by
  have first := takesHeader cursor body shows
  have behind := shows.advance
  rw [← List.append_nil body] at behind
  have second := takes _ [] behind
  have ends := behind.advance
  generalize Cursor.mk _ (_ + body.length) = last at second ends
  have left : last.left = 0 := by
    rw [← Cursor.length_rest, ends.rest, List.length_nil]
  refine ⟨last, ?_⟩
  show (readHeader cursor >>= fun outcome => (readContent >>= fun content =>
    CheckedReader.ofReader Reader.left >>= fun left =>
      if left = 0 then pure (outcome.1, content)
      else CheckedReader.refuse (.trailingBytes left) : CheckedReader _) outcome.2) = _
  rw [first]
  show (readContent _ >>= fun outcome => (CheckedReader.ofReader Reader.left >>= fun left =>
      if left = 0 then pure (header, outcome.1)
      else CheckedReader.refuse (.trailingBytes left) : CheckedReader _) outcome.2) = _
  rw [second]
  show (if last.left = 0 then pure (header, content)
    else CheckedReader.refuse (.trailingBytes last.left) : CheckedReader _) last = _
  rw [if_pos left]
  rfl

theorem takes_readContent {content : Content} {encoded : List UInt8}
    (words : Takes Forest.read content.words.encode content.words.reloaded)
    (followers : Takes Forest.read content.followers.encode content.followers.reloaded)
    (few : content.unigramCount < LittleEndian.span 4)
    (fewBigrams : content.bigramCount < LittleEndian.span 4)
    (written : encodeContent content = .ok encoded) :
    Takes readContent encoded content.reloaded := by
  obtain ⟨terminals, writtenTerminals, written⟩ := exists_of_bind written
  obtain ⟨records, writtenRecords, written⟩ := exists_of_bind written
  cases written
  have parts : Takes readContent (LittleEndian.encode 4 content.unigramCount ++
      (LittleEndian.encode 4 content.bigramCount ++ (content.words.encode ++
        (content.followers.encode ++ (terminals ++ (records ++ [])))))) content.reloaded :=
    (Takes.of_reads (Reads.number few)).bind ((Takes.of_reads (Reads.number fewBigrams)).bind
      (words.bind (followers.bind ((takes_readBuffer writtenTerminals).bind
        ((takes_readBuffer writtenRecords).bind (.pure _))))))
  simpa using parts

/-- The parts of an image that was written. -/
theorem exists_parts {header : Header} {content : Content} {image : List UInt8}
    (written : encode header content = .ok image) :
    ∃ head body, encodeHeader header = .ok head ∧ encodeContent content = .ok body ∧
      image = withChecksum (mark ++ (head ++ body)) ∧ 4 ≤ (head ++ body).length := by
  obtain ⟨head, writtenHead, written⟩ := exists_of_bind written
  obtain ⟨body, writtenBody, written⟩ := exists_of_bind written
  cases written
  refine ⟨head, body, writtenHead, writtenBody, rfl, ?_⟩
  obtain ⟨locale, _, writtenHead⟩ := exists_of_bind writtenHead
  obtain ⟨attributes, _, writtenHead⟩ := exists_of_bind writtenHead
  cases writtenHead
  rw [List.append_assoc, List.length_append, LittleEndian.length_encode]
  exact Nat.le_add_right _ _

/-- What the body of an image shows is its bytes. -/
theorem shows_body (body : List UInt8) :
    Cursor.Shows { bytes := (mark ++ body).toByteArray, position := mark.length } body := by
  refine ⟨?_, ?_⟩
  · show mark.length ≤ (mark ++ body).toByteArray.size
    rw [List.size_toByteArray, List.length_append]
    exact Nat.le_add_right _ _
  · rw [Cursor.rest, List.toList_data_toByteArray, List.drop_left]

/-- An image that is accepted gives back the header and the content that were written. -/
theorem decode_encode {header answer : Header} {content copy : Content} {image : List UInt8}
    (sane : content.words.arena.Sane) (saneFollowers : content.followers.arena.Sane)
    (few : content.unigramCount < LittleEndian.span 4)
    (fewBigrams : content.bigramCount < LittleEndian.span 4)
    (written : encode header content = .ok image)
    (accepted : decode image.toByteArray = .ok (answer, copy)) :
    answer = header ∧ Copied content copy := by
  obtain ⟨head, body, writtenHead, writtenBody, rfl, long⟩ := exists_parts written
  have gives : Gives readBody (head ++ (body ++ ([] ++ []))) fun read =>
      read.1 = header ∧ Copied content read.2 := by
    refine ((takes_readHeader writtenHead).gives rfl).bind ?_
    rintro _ rfl
    refine (gives_readContent sane saneFollowers few fewBigrams writtenBody).bind fun copied => ?_
    refine gives_left.bind fun _ => ?_
    split
    next => exact .pure ⟨rfl, copied⟩
    next => exact .refuse _ _
  rw [decode_withChecksum long] at accepted
  split at accepted
  next read cursor done =>
    cases accepted
    exact (gives _ [] (by simpa using shows_body (head ++ body)) done).1
  next => cases accepted
  next => cases accepted

/-- An image whose header and content are read from its bytes is accepted. -/
theorem decode_of_takes {head body : List UInt8} {header : Header} {content : Content}
    (long : 4 ≤ (head ++ body).length) (takesHeader : Takes readHeader head header)
    (takes : Takes readContent body content) :
    decode (withChecksum (mark ++ (head ++ body))).toByteArray = .ok (header, content) := by
  obtain ⟨last, done⟩ := readBody_eq takesHeader takes (shows_body (head ++ body))
  rw [decode_withChecksum long, done]

/-- An image of forests that are read back is accepted. -/
theorem decode_eq {header : Header} {content : Content} {image : List UInt8}
    (words : Takes Forest.read content.words.encode content.words.reloaded)
    (followers : Takes Forest.read content.followers.encode content.followers.reloaded)
    (few : content.unigramCount < LittleEndian.span 4)
    (fewBigrams : content.bigramCount < LittleEndian.span 4)
    (written : encode header content = .ok image) :
    decode image.toByteArray = .ok (header, content.reloaded) := by
  obtain ⟨head, body, writtenHead, writtenBody, rfl, long⟩ := exists_parts written
  exact decode_of_takes long (takes_readHeader writtenHead)
    (takes_readContent words followers few fewBigrams writtenBody)

end Image

end Lexicon

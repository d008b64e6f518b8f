/-
Module: Lexicon.Image
Layer: Storage
Purpose: The stored form of a dictionary: header, counts, forests, buffers and a checksum.
Imports: Lexicon.Bytes.Checksum, Lexicon.Dictionary.Basic, Lexicon.Forest.Storage
Trusted boundary: none
Main exports: Image.encode, Image.decode
-/
import Lexicon.Bytes.Checksum
import Lexicon.Dictionary.Basic
import Lexicon.Forest.Storage

namespace Lexicon

namespace Image

/-!
An image is four marking bytes, the number of the format version, the locale, the attributes, the
numbers of words and bigrams, the two forests, the two buffers, and the checksum of all that.  Texts
are preceded by their length in two bytes, buffers by theirs in four.
-/

/-- The bytes with which every image begins. -/
def mark : List UInt8 := [0x54, 0x44, 0x49, 0x43]

/-- The bytes of the checksum. -/
def checksumSize : Nat := 4

/-! ### Writing -/

/-- The bytes of a text of the header, preceded by their number. -/
def encodeText (text : String) : Except Error (List UInt8) :=
  let bytes := text.toUTF8.data.toList
  if bytes.length < LittleEndian.span 2 then
    .ok (LittleEndian.encode 2 bytes.length ++ bytes)
  else
    .error (.format (.headerTextTooLong bytes.length))

/-- The bytes of an attribute: its key and its value. -/
def encodeAttribute (entry : String × String) : Except Error (List UInt8) := do
  let key ← encodeText entry.1
  let value ← encodeText entry.2
  pure (key ++ value)

/-- The bytes of all attributes, preceded by their number. -/
def encodeAttributes (attributes : Attributes) : Except Error (List UInt8) := do
  let count := attributes.entries.length
  if count < LittleEndian.span 2 then
    let fields ← attributes.entries.mapM encodeAttribute
    pure (LittleEndian.encode 2 count ++ fields.flatten)
  else
    .error (.format .tooManyAttributes)

/-- The bytes of a header. -/
def encodeHeader (header : Header) : Except Error (List UInt8) := do
  let locale ← encodeText header.locale
  let attributes ← encodeAttributes header.attributes
  pure (LittleEndian.encode 4 header.version.number ++ (locale ++ attributes))

/-- The bytes of a buffer, preceded by their number. -/
def encodeBuffer (buffer : ByteArray) : Except Error (List UInt8) :=
  if buffer.size < LittleEndian.span 4 then
    .ok (LittleEndian.encode 4 buffer.size ++ buffer.data.toList)
  else
    .error (.format (.bufferTooLong buffer.size))

/-- The bytes of the content of a dictionary. -/
def encodeContent (content : Content) : Except Error (List UInt8) := do
  let terminals ← encodeBuffer content.terminals
  let records ← encodeBuffer content.records
  pure
    (LittleEndian.encode 4 content.unigramCount ++ (LittleEndian.encode 4 content.bigramCount ++
      (content.words.encode ++ (content.followers.encode ++ (terminals ++ records)))))

/-- Closes an image with its checksum. -/
def withChecksum (body : List UInt8) : List UInt8 :=
  body ++ LittleEndian.encode checksumSize (Checksum.ofBytes body)

/-- The image of a dictionary. -/
def encode (header : Header) (content : Content) : Except Error (List UInt8) := do
  let header ← encodeHeader header
  let content ← encodeContent content
  pure (withChecksum (mark ++ (header ++ content)))

/-! ### Reading -/

/-- Reads a block whose length was read before it. -/
def readBlock (length : Nat) : CheckedReader ByteArray := do
  let left ← CheckedReader.ofReader Reader.left
  if left < length then
    CheckedReader.refuse (.fieldOverrun length left)
  else
    CheckedReader.ofReader (Reader.block length)

/-- Reads a text of the header. -/
def readText : CheckedReader String := do
  let length ← CheckedReader.ofReader (Reader.number 2)
  let bytes ← readBlock length
  match String.fromUTF8? bytes with
  | some text => pure text
  | none => CheckedReader.refuse .headerNotText

/-- Reads attributes, and puts them in front of those that were read before. -/
def readAttributes : (count : Nat) → List (String × String) → CheckedReader (List (String × String))
  | 0, read => pure read.reverse
  | count + 1, read => do
      let key ← readText
      let value ← readText
      readAttributes count ((key, value) :: read)

/-- Reads the number of a format version. -/
def readVersion : CheckedReader FormatVersion := do
  let number ← CheckedReader.ofReader (Reader.number 4)
  match FormatVersion.ofNumber number with
  | .ok version => pure version
  | .error error => throw error

/-- Reads a header. -/
def readHeader : CheckedReader Header := do
  let version ← readVersion
  let locale ← readText
  let count ← CheckedReader.ofReader (Reader.number 2)
  let attributes ← readAttributes count []
  pure { version := version, locale := locale, attributes := Attributes.ofList attributes }

/-- Reads a buffer. -/
def readBuffer : CheckedReader ByteArray := do
  let length ← CheckedReader.ofReader (Reader.number 4)
  readBlock length

/-- Reads the content of a dictionary. -/
def readContent : CheckedReader Content := do
  let unigramCount ← CheckedReader.ofReader (Reader.number 4)
  let bigramCount ← CheckedReader.ofReader (Reader.number 4)
  let words ← Forest.read
  let followers ← Forest.read
  let terminals ← readBuffer
  let records ← readBuffer
  pure
    { words := words
      followers := followers
      terminals := terminals
      records := records
      unigramCount := unigramCount
      bigramCount := bigramCount }

/-- Reads what stands between the mark and the checksum of an image, to the last byte. -/
def readBody : CheckedReader (Header × Content) := do
  let header ← readHeader
  let content ← readContent
  let left ← CheckedReader.ofReader Reader.left
  if left = 0 then
    pure (header, content)
  else
    CheckedReader.refuse (.trailingBytes left)

/-- Reads an image.  Nothing in it is looked at before its checksum is found right. -/
def decode (image : ByteArray) : Except Error (Header × Content) :=
  let stop := image.size - checksumSize
  if image.size < mark.length + 4 + checksumSize ||
      (image.extract 0 mark.length).data.toList ≠ mark then
    .error (.format .notAnImage)
  else
    let body := image.extract 0 stop
    let expected := LittleEndian.decode (image.extract stop image.size).data.toList
    let actual := Checksum.ofBytes body.data.toList
    if expected ≠ actual then
      .error (.checksumMismatch expected actual)
    else
      match readBody { bytes := body, position := mark.length } with
      | .ok (answer, _) => .ok answer
      | .error (.file .endOfFile) => .error (.format .truncated)
      | .error error => .error error

end Image

end Lexicon

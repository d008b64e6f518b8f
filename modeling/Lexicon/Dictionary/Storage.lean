/-
Module: Lexicon.Dictionary.Storage
Layer: Dictionary
Purpose: Opening dictionaries from files and flushing them to files.
Imports: Lexicon.Dictionary.Compaction, Lexicon.Directory, Lexicon.Image
Trusted boundary: none
Main exports: Dictionary.openFile, Dictionary.flush, Dictionary.flushCompacted
-/
import Lexicon.Dictionary.Compaction
import Lexicon.Directory
import Lexicon.Image

namespace Lexicon

namespace Dictionary

/-- The bytes of a file from an offset on: as many as asked for, or all that follow when none are
asked for. -/
def window (file : ByteArray) (offset size : Nat) : Except Error ByteArray :=
  let stop := if size = 0 then file.size else offset + size
  if offset ≤ stop && stop ≤ file.size then
    .ok (file.extract offset stop)
  else
    .error (.format (.windowOutside offset size file.size))

/-- Opens the dictionary whose image stands in a window of a file. -/
def openFile (directory : Directory) (name : String) (offset size : Nat) (updatable : Bool)
    (configuration : Configuration) : Except Error Dictionary := do
  let file ← (directory.mapFile name).mapError Error.file
  if file.size = 0 then
    .error (.format (.emptyFile name))
  else
    let image ← window file offset size
    let (header, content) ← Image.decode image
    pure (ofContent header content updatable configuration)

/-- Writes the image of a dictionary that accepts changes to a file. -/
def flush (dictionary : Dictionary) (directory : Directory) (name : String) :
    Except Error Unit × Directory :=
  match dictionary.checkUpdatable with
  | .error error => (.error error, directory)
  | .ok () =>
      match Image.encode dictionary.header dictionary.content with
      | .error error => (.error error, directory)
      | .ok image =>
          let (answer, directory) := directory.replaceFile name image.toByteArray
          (answer.mapError Error.file, directory)

/-- Compacts a dictionary and writes its image to a file.  The dictionary stays compacted when the
file cannot be written. -/
def flushCompacted (dictionary : Dictionary) (directory : Directory) (name : String) :
    Except Error Unit × Dictionary × Directory :=
  match dictionary.checkUpdatable with
  | .error error => (.error error, dictionary, directory)
  | .ok () =>
      match compact.apply dictionary with
      | (.error error, dictionary) => (.error error, dictionary, directory)
      | (.ok (), dictionary) =>
          let (answer, directory) := dictionary.flush directory name
          (answer, dictionary, directory)

end Dictionary

end Lexicon

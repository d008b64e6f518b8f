/-
Module: Lexicon.Directory
Layer: Storage
Purpose: A directory of files, with the faults that working on it can meet.
Imports: Lexicon.Error
Trusted boundary: none
Main exports: Directory, Directory.contents, Directory.writeFile, Directory.replaceFile,
  Directory.removeFile, Directory.makeDirectory, Directory.names
-/
import Lexicon.Error

namespace Lexicon

/-- What a name stands for. -/
inductive DirectoryItem where
  | file (bytes : ByteArray)
  | directory

/-- The parts of a name, from the outermost directory inwards. -/
abbrev Path := List String

/-- The files and directories below a directory, each under its full path. -/
structure Directory where
  items : List (Path × DirectoryItem)

namespace Directory

/-- The directory without files. -/
def empty : Directory := ⟨[]⟩

instance : Inhabited Directory := ⟨empty⟩

/-- The path that a name stands for. -/
def path (name : String) : Path :=
  ((name.toList.splitOn '/').map String.ofList).filter fun part => part ≠ "" && part ≠ "."

/-- What stands at a path; the empty path is the directory itself. -/
def item? (directory : Directory) (path : Path) : Option DirectoryItem :=
  if path.isEmpty then some .directory
  else (directory.items.find? fun item => item.1 = path).map (·.2)

/-- Puts something at a path, in the place of what stood there. -/
def place (directory : Directory) (path : Path) (item : DirectoryItem) : Directory :=
  ⟨(path, item) :: directory.items.filter fun other => other.1 ≠ path⟩

/-- Takes away what stands at a path. -/
def drop (directory : Directory) (path : Path) : Directory :=
  ⟨directory.items.filter fun other => other.1 ≠ path⟩

/-- Whether every path on the way to the given one is a directory.  The outermost path that is not
decides what is wrong. -/
def checkParents (directory : Directory) (path : Path) : Except FileFault Unit :=
  (List.range path.length).forM fun depth =>
    match directory.item? (path.take depth) with
    | some .directory => .ok ()
    | some (.file _) => .error .notADirectory
    | none => .error .notFound

/-- The bytes of a file; `onDirectory` is the fault of reading a directory. -/
def fetch (directory : Directory) (name : String) (onDirectory : FileFault) :
    Except FileFault ByteArray := do
  directory.checkParents (path name)
  match directory.item? (path name) with
  | some (.file bytes) => .ok bytes
  | some .directory => .error onDirectory
  | none => .error .notFound

/-- Reads a file. -/
def contents (directory : Directory) (name : String) : Except FileFault ByteArray :=
  directory.fetch name .isADirectory

/-- Maps a file into memory. -/
def mapFile (directory : Directory) (name : String) : Except FileFault ByteArray :=
  directory.fetch name .notMappable

/-- Writes a file, in the place of a file of the same name. -/
def writeFile (directory : Directory) (name : String) (bytes : ByteArray) :
    Except FileFault Directory := do
  directory.checkParents (path name)
  match directory.item? (path name) with
  | some .directory => .error .isADirectory
  | _ => .ok (directory.place (path name) (.file bytes))

/-- Removes a file. -/
def removeFile (directory : Directory) (name : String) : Except FileFault Directory := do
  directory.checkParents (path name)
  match directory.item? (path name) with
  | some (.file _) => .ok (directory.drop (path name))
  | some .directory => .error .isADirectory
  | none => .error .notFound

/-- Gives a file another name, in the place of a file that has it. -/
def renameFile (directory : Directory) (name newName : String) : Except FileFault Directory := do
  let bytes ← directory.contents name
  let renamed ← directory.writeFile newName bytes
  pure (if path name = path newName then renamed else renamed.drop (path name))

/-- Makes an empty directory. -/
def makeDirectory (directory : Directory) (name : String) : Except FileFault Directory := do
  directory.checkParents (path name)
  match directory.item? (path name) with
  | some _ => .error .alreadyExists
  | none => .ok (directory.place (path name) .directory)

/-- Removes a file if that is possible. -/
def discardFile (directory : Directory) (name : String) : Directory :=
  match directory.removeFile name with
  | .ok without => without
  | .error _ => directory

/-- The name under which a file is written before it takes the place of another. -/
def provisional (name : String) : String := name ++ ".tmp"

/-- Writes a file beside its place and then renames it into its place, so that a file of that name
is replaced as a whole or not at all.  On a fault the provisional file is discarded. -/
def replaceFile (directory : Directory) (name : String) (bytes : ByteArray) :
    Except FileFault Unit × Directory :=
  match directory.writeFile (provisional name) bytes with
  | .error fault => (.error fault, directory.discardFile (provisional name))
  | .ok written =>
      match written.renameFile (provisional name) name with
      | .error fault => (.error fault, written.discardFile (provisional name))
      | .ok renamed => (.ok (), renamed)

/-- The names directly in the directory, in order. -/
def names (directory : Directory) : List String :=
  let outermost := directory.items.filterMap fun
    | ([name], _) => some name
    | _ => none
  outermost.mergeSort fun first second => decide (first ≤ second)

end Directory

end Lexicon

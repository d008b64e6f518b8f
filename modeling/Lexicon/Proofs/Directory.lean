/-
Module: Lexicon.Proofs.Directory
Layer: Proofs
Purpose: A file that was replaced holds the bytes that it was replaced by, no other file has changed,
  and it can be replaced again.
Imports: Lexicon.Directory, Lexicon.Proofs.Bytes.Reads
Trusted boundary: none
Main exports: Directory.path_provisional_ne, Directory.checkParents_eq_ok, Directory.fetch_eq_ok,
  Directory.mapFile_lone, Directory.replaceFile_eq_ok, Directory.mapFile_of_replaceFile,
  Directory.exists_replaceFile_again, Directory.Writable, Directory.Confined, Directory.Retained,
  Directory.retained_of_replaceFile, Directory.confined_replaceFile
-/
import Lexicon.Directory
import Lexicon.Proofs.Bytes.Reads

namespace Lexicon

namespace Directory

variable {directory : Directory} {path other : Path}

/-! ### Names -/

/-- What is put behind a text without a separator is put behind its last part. -/
theorem splitOn_append (separator : Char) (text more : List Char) (plain : separator ∉ more) :
    ∃ parts last, text.splitOn separator = parts ++ [last] ∧
      (text ++ more).splitOn separator = parts ++ [last ++ more] := by
  induction text with
  | nil => exact ⟨[], [], by simp, by simpa using List.splitOn_eq_singleton plain⟩
  | cons letter text ih =>
      rcases ih with ⟨parts, last, here, behind⟩
      rw [List.cons_append, List.splitOn_cons_eq_if_modifyHead,
        List.splitOn_cons_eq_if_modifyHead, here, behind]
      by_cases separates : letter == separator
      · simp only [separates, if_true]
        exact ⟨[] :: parts, last, rfl, rfl⟩
      · simp only [separates]
        cases parts with
        | nil => exact ⟨[], letter :: last, rfl, rfl⟩
        | cons first parts => exact ⟨(letter :: first) :: parts, last, rfl, rfl⟩

/-- The path beside another one has another last part, or one part more. -/
theorem path_provisional (name : String) : ∃ parts last,
    Directory.path (provisional name) = parts ++ [last ++ ".tmp"] ∧
      (Directory.path name = parts ∨ Directory.path name = parts ++ [last]) := by
  rcases splitOn_append '/' name.toList ".tmp".toList (by decide) with ⟨parts, last, here, beside⟩
  have kept : String.ofList (last ++ ".tmp".toList) ≠ "" ∧
      String.ofList (last ++ ".tmp".toList) ≠ "." := by
    constructor
    · intro empty
      have length := congrArg (fun text : String => text.toList.length) empty
      simp at length
    · intro dot
      have length := congrArg (fun text : String => text.toList.length) dot
      simp at length
  refine ⟨(parts.map String.ofList).filter fun part => part ≠ "" && part ≠ ".",
    String.ofList last, ?_, ?_⟩
  · rw [Directory.path, provisional, String.toList_append, beside, List.map_append,
      List.filter_append, List.map_singleton, List.filter_cons, if_pos (by simpa using kept),
      String.ofList_append]
    rfl
  · rw [Directory.path, here, List.map_append, List.filter_append, List.map_singleton,
      List.filter_cons]
    split
    next => exact .inr rfl
    next => exact .inl (List.append_nil _)

/-- The name beside another one stands for another path. -/
theorem path_provisional_ne (name : String) :
    Directory.path (provisional name) ≠ Directory.path name := by
  rcases path_provisional name with ⟨parts, last, beside, here | here⟩
  · rw [beside, here]
    intro same
    have length := congrArg List.length same
    simp at length
  · rw [beside, here]
    intro same
    rw [List.append_cancel_left_eq] at same
    have length := congrArg (fun text : String => text.toList.length) (List.singleton_inj.mp same)
    simp at length

/-- What leads to a path is not the path beside it. -/
theorem take_ne_provisional {name : String} {depth : Nat}
    (shorter : depth < (Directory.path name).length) :
    (Directory.path name).take depth ≠ Directory.path (provisional name) := by
  have longer : (Directory.path name).length ≤ (Directory.path (provisional name)).length := by
    rcases path_provisional name with ⟨parts, last, beside, here⟩
    rw [beside]
    rcases here with here | here <;> rw [here] <;> simp
  intro same
  have length := congrArg List.length same
  rw [List.length_take] at length
  omega

/-! ### What stands at a path -/

/-- The paths on the way to another one are directories. -/
theorem checkParents_eq_ok :
    directory.checkParents path = .ok () ↔
      ∀ depth < path.length, directory.item? (path.take depth) = some .directory := by
  rw [checkParents, forM_eq_ok_iff]
  simp only [List.mem_range]
  refine forall₂_congr fun depth _ => ?_
  cases directory.item? (path.take depth) with
  | none => simp
  | some item => cases item <;> simp

theorem item?_place (directory : Directory) (inner : path ≠ []) (item : DirectoryItem) :
    (directory.place path item).item? path = some item := by
  rw [item?, if_neg (by simpa using inner), place, List.find?_cons_of_pos (by simp)]
  rfl

theorem find?_filter_ne (items : List (Path × DirectoryItem)) (differ : other ≠ path) :
    (items.filter fun item => item.1 ≠ path).find? (fun item => item.1 = other) =
      items.find? fun item => item.1 = other := by
  rw [List.find?_filter]
  congr 1
  funext item
  by_cases same : item.1 = other
  · simp [same, differ]
  · simp [same]

/-- Elsewhere nothing changes. -/
theorem item?_place_of_ne (differ : other ≠ path) (item : DirectoryItem) :
    (directory.place path item).item? other = directory.item? other := by
  have first : ¬ ((path, item).1 = other) := fun same => differ same.symm
  rw [item?, item?, place, List.find?_cons_of_neg (by simpa using first),
    find?_filter_ne _ differ]

theorem item?_drop_of_ne (differ : other ≠ path) :
    (directory.drop path).item? other = directory.item? other := by
  rw [item?, item?, drop, find?_filter_ne _ differ]

theorem item?_drop (directory : Directory) (inner : path ≠ []) :
    (directory.drop path).item? path = none := by
  rw [item?, if_neg (by simpa using inner), drop, List.find?_eq_none.mpr, Option.map_none]
  simp

/-- What leads to a path is not that path. -/
theorem take_ne {depth : Nat} (shorter : depth < path.length) : path.take depth ≠ path := by
  intro same
  have length := congrArg List.length same
  rw [List.length_take] at length
  omega

/-! ### Files -/

theorem fetch_eq_ok {name : String} {fault : FileFault} {bytes : ByteArray} :
    directory.fetch name fault = .ok bytes ↔
      directory.checkParents (Directory.path name) = .ok () ∧
        directory.item? (Directory.path name) = some (.file bytes) := by
  rw [fetch]
  cases directory.checkParents (Directory.path name) with
  | error fault => simp [bind, Except.bind]
  | ok done =>
      cases directory.item? (Directory.path name) with
      | none => simp [bind, Except.bind]
      | some item => cases item <;> simp [bind, Except.bind]

/-- The only file of a directory is mapped as it is. -/
theorem mapFile_lone {name part : String} (alone : Directory.path name = [part]) (bytes : ByteArray) :
    mapFile ⟨[([part], .file bytes)]⟩ name = .ok bytes := by
  rw [mapFile, fetch_eq_ok, alone]
  refine ⟨rfl, ?_⟩
  simp [item?]

theorem writeFile_eq_ok {name : String} {bytes : ByteArray} {written : Directory} :
    directory.writeFile name bytes = .ok written ↔
      directory.checkParents (Directory.path name) = .ok () ∧
        directory.item? (Directory.path name) ≠ some .directory ∧
        written = directory.place (Directory.path name) (.file bytes) := by
  rw [writeFile]
  cases directory.checkParents (Directory.path name) with
  | error fault => simp [bind, Except.bind]
  | ok done =>
      cases directory.item? (Directory.path name) with
      | none => simp [bind, Except.bind, eq_comm]
      | some item => cases item <;> simp [bind, Except.bind, eq_comm]

/-- What a file is written to is not the outermost directory. -/
theorem path_ne_nil {name : String} (free : directory.item? (Directory.path name) ≠ some .directory) :
    Directory.path name ≠ [] := by
  intro outermost
  rw [outermost] at free
  exact free rfl

/-- What was written is found. -/
theorem fetch_of_writeFile {name : String} {bytes : ByteArray} {written : Directory}
    (done : directory.writeFile name bytes = .ok written) (fault : FileFault) :
    written.fetch name fault = .ok bytes := by
  rcases writeFile_eq_ok.mp done with ⟨parents, free, rfl⟩
  rw [fetch_eq_ok, checkParents_eq_ok]
  constructor
  · intro depth shorter
    rw [item?_place_of_ne (take_ne shorter), checkParents_eq_ok.mp parents depth shorter]
  · exact item?_place _ (path_ne_nil free) _

/-! ### Replacing a file -/

section Replacing

variable {name : String} {bytes : ByteArray} {replaced : Directory}

/-- A file is replaced by being written twice, beside its place and in its place. -/
theorem replaceFile_eq_ok :
    directory.replaceFile name bytes = (.ok (), replaced) ↔
      ∃ beside placed, directory.writeFile (provisional name) bytes = .ok beside ∧
        beside.writeFile name bytes = .ok placed ∧
        replaced = placed.drop (Directory.path (provisional name)) := by
  rw [replaceFile]
  cases first : directory.writeFile (provisional name) bytes with
  | error fault => simp
  | ok beside =>
      have read : beside.contents (provisional name) = .ok bytes := fetch_of_writeFile first _
      cases second : beside.writeFile name bytes with
      | error fault =>
          simp [renameFile, read, second, bind, Except.bind]
      | ok placed =>
          have moved : beside.renameFile (provisional name) name =
              .ok (placed.drop (Directory.path (provisional name))) := by
            simp [renameFile, read, second, bind, Except.bind, pure, Except.pure,
              path_provisional_ne]
          simp [moved, second, eq_comm]

/-- The file has the bytes by which it was replaced. -/
theorem item?_of_replaceFile (done : directory.replaceFile name bytes = (.ok (), replaced)) :
    replaced.item? (Directory.path name) = some (.file bytes) := by
  rcases replaceFile_eq_ok.mp done with ⟨beside, placed, first, second, rfl⟩
  rw [item?_drop_of_ne (path_provisional_ne name).symm]
  exact (fetch_eq_ok.mp (fetch_of_writeFile second .isADirectory)).2

/-- Nothing is left beside it. -/
theorem item?_provisional_of_replaceFile
    (done : directory.replaceFile name bytes = (.ok (), replaced)) :
    replaced.item? (Directory.path (provisional name)) = none := by
  rcases replaceFile_eq_ok.mp done with ⟨beside, placed, first, second, rfl⟩
  exact item?_drop _ (path_ne_nil (writeFile_eq_ok.mp first).2.1)

/-- Elsewhere nothing has changed. -/
theorem item?_of_replaceFile_of_ne
    (done : directory.replaceFile name bytes = (.ok (), replaced))
    (differ : other ≠ Directory.path name) (apart : other ≠ Directory.path (provisional name)) :
    replaced.item? other = directory.item? other := by
  rcases replaceFile_eq_ok.mp done with ⟨beside, placed, first, second, rfl⟩
  rcases writeFile_eq_ok.mp first with ⟨_, _, rfl⟩
  rcases writeFile_eq_ok.mp second with ⟨_, _, rfl⟩
  rw [item?_drop_of_ne apart, item?_place_of_ne differ, item?_place_of_ne apart]

/-- The directories on the way to the file are still there. -/
theorem checkParents_of_replaceFile
    (done : directory.replaceFile name bytes = (.ok (), replaced)) :
    replaced.checkParents (Directory.path name) = .ok () ∧
      replaced.checkParents (Directory.path (provisional name)) = .ok () := by
  have whole := done
  rcases replaceFile_eq_ok.mp done with ⟨beside, placed, first, second, _⟩
  rcases writeFile_eq_ok.mp first with ⟨parentsBeside, free, rfl⟩
  rcases writeFile_eq_ok.mp second with ⟨parents, vacant, _⟩
  rw [checkParents_eq_ok] at parentsBeside parents
  rw [checkParents_eq_ok, checkParents_eq_ok]
  constructor
  · intro depth shorter
    have above := parents depth shorter
    have apart := take_ne_provisional shorter
    rw [item?_of_replaceFile_of_ne whole (take_ne shorter) apart, ← above, item?_place_of_ne apart]
  · intro depth shorter
    have above := parentsBeside depth shorter
    -- a directory on the way to the file beside is not the file
    have differ : (Directory.path (provisional name)).take depth ≠ Directory.path name := by
      intro same
      rw [same] at above
      rw [item?_place_of_ne (path_provisional_ne name).symm] at vacant
      exact vacant above
    rw [item?_of_replaceFile_of_ne whole differ (take_ne shorter), above]

/-- A file that was replaced is mapped with the bytes that it was replaced by. -/
theorem mapFile_of_replaceFile (done : directory.replaceFile name bytes = (.ok (), replaced)) :
    replaced.mapFile name = .ok bytes :=
  fetch_eq_ok.mpr ⟨(checkParents_of_replaceFile done).1, item?_of_replaceFile done⟩

/-- A file that was replaced can be replaced again. -/
theorem exists_replaceFile_again (done : directory.replaceFile name bytes = (.ok (), replaced))
    (more : ByteArray) : ∃ last, replaced.replaceFile name more = (.ok (), last) := by
  rcases checkParents_of_replaceFile done with ⟨parents, parentsBeside⟩
  have here := item?_of_replaceFile done
  have there := item?_provisional_of_replaceFile done
  let beside := replaced.place (Directory.path (provisional name)) (.file more)
  have first : replaced.writeFile (provisional name) more = .ok beside :=
    writeFile_eq_ok.mpr ⟨parentsBeside, by rw [there]; exact nofun, rfl⟩
  have kept : beside.item? (Directory.path name) = some (.file bytes) := by
    rw [item?_place_of_ne (path_provisional_ne name).symm, here]
  have second : beside.writeFile name more =
      .ok (beside.place (Directory.path name) (.file more)) := by
    refine writeFile_eq_ok.mpr ⟨checkParents_eq_ok.mpr fun depth shorter => ?_, ?_, rfl⟩
    · rw [item?_place_of_ne (take_ne_provisional shorter),
        checkParents_eq_ok.mp parents depth shorter]
    · rw [kept]
      exact nofun
  exact ⟨_, replaceFile_eq_ok.mpr ⟨beside, _, first, second, rfl⟩⟩

/-- A file can be written, whatever bytes it is to hold. -/
def Writable (directory : Directory) (name : String) : Prop :=
  ∀ bytes, ∃ replaced, directory.replaceFile name bytes = (.ok (), replaced)

/-- It still can when it was. -/
theorem writable_of_replaceFile (done : directory.replaceFile name bytes = (.ok (), replaced)) :
    replaced.Writable name := exists_replaceFile_again done

end Replacing

/-! ### What replacing a file can change -/

/-- Only a file, and what stands beside it, has changed from one directory to another; and beside it
stands nothing, or what stood there. -/
structure Confined (name : String) (before after : Directory) : Prop where
  elsewhere : ∀ other, other ≠ Directory.path name → other ≠ Directory.path (provisional name) →
    after.item? other = before.item? other
  beside : after.item? (Directory.path (provisional name)) = none ∨
    after.item? (Directory.path (provisional name)) =
      before.item? (Directory.path (provisional name))

/-- The file has not changed, either. -/
structure Retained (name : String) (before after : Directory) : Prop
    extends Confined name before after where
  file : after.item? (Directory.path name) = before.item? (Directory.path name)

section Changes

variable {name : String} {before between after : Directory}

theorem Confined.refl (name : String) (directory : Directory) : Confined name directory directory :=
  ⟨fun _ _ _ => rfl, .inr rfl⟩

theorem Confined.trans (first : Confined name before between)
    (second : Confined name between after) : Confined name before after := by
  constructor
  · intro other differ apart
    rw [second.elsewhere other differ apart, first.elsewhere other differ apart]
  · rcases second.beside with nothing | same
    · exact .inl nothing
    · rw [same]
      exact first.beside

theorem Retained.refl (name : String) (directory : Directory) : Retained name directory directory :=
  ⟨.refl name directory, rfl⟩

/-- A file that is retained is mapped as before. -/
theorem Retained.mapFile (retained : Retained name before after) {bytes : ByteArray}
    (mapped : before.mapFile name = .ok bytes) : after.mapFile name = .ok bytes := by
  rw [Directory.mapFile, fetch_eq_ok, checkParents_eq_ok] at mapped ⊢
  constructor
  · intro depth shorter
    rw [retained.elsewhere _ (take_ne shorter) (take_ne_provisional shorter), mapped.1 depth shorter]
  · rw [retained.file, mapped.2]

/-- A file beside that was written and dropped again leaves all else. -/
theorem retained_drop {bytes : ByteArray} (inner : Directory.path (provisional name) ≠ []) :
    Retained name directory ((directory.place (Directory.path (provisional name))
      (.file bytes)).drop (Directory.path (provisional name))) := by
  have others : ∀ other, other ≠ Directory.path (provisional name) →
      ((directory.place (Directory.path (provisional name)) (.file bytes)).drop
        (Directory.path (provisional name))).item? other = directory.item? other := by
    intro other apart
    rw [item?_drop_of_ne apart, item?_place_of_ne apart]
  exact ⟨⟨fun other _ apart => others other apart, .inl (item?_drop _ inner)⟩,
    others _ (path_provisional_ne name).symm⟩

/-- A file that is not replaced is retained. -/
theorem retained_of_replaceFile {bytes : ByteArray} {fault : FileFault}
    (done : directory.replaceFile name bytes = (.error fault, after)) :
    Retained name directory after := by
  rw [replaceFile] at done
  cases first : directory.writeFile (provisional name) bytes with
  | error reason =>
      rw [first] at done
      cases done
      rw [discardFile]
      split
      next without removed =>
        -- what cannot be written there cannot be removed, either
        rw [removeFile] at removed
        rw [writeFile] at first
        cases parents : directory.checkParents (Directory.path (provisional name)) with
        | error _ =>
            rw [parents] at removed
            cases removed
        | ok passed =>
            rw [parents] at removed first
            simp only [bind, Except.bind] at removed first
            split at removed
            next stands =>
              rw [stands] at first
              cases first
            next => cases removed
            next => cases removed
      next => exact .refl name directory
  | ok beside =>
      rw [first] at done
      rcases writeFile_eq_ok.mp first with ⟨parents, free, rfl⟩
      dsimp only at done
      split at done
      next =>
        cases done
        have stands := fetch_eq_ok.mp (fetch_of_writeFile first .isADirectory)
        have removed : (directory.place (Directory.path (provisional name))
            (.file bytes)).removeFile (provisional name) = .ok ((directory.place
              (Directory.path (provisional name)) (.file bytes)).drop
                (Directory.path (provisional name))) := by
          rw [removeFile, stands.1, stands.2]
          rfl
        rw [discardFile, removed]
        exact retained_drop (path_ne_nil free)
      next => cases done

/-- Whatever comes of replacing a file is confined to it. -/
theorem confined_replaceFile (directory : Directory) (name : String) (bytes : ByteArray) :
    Confined name directory (directory.replaceFile name bytes).2 := by
  rcases done : directory.replaceFile name bytes with ⟨answer, replaced⟩
  cases answer with
  | error fault => exact (retained_of_replaceFile done).toConfined
  | ok =>
      exact ⟨fun other differ apart => item?_of_replaceFile_of_ne done differ apart,
        .inl (item?_provisional_of_replaceFile done)⟩

/-- A file that can be mapped is discarded, and nothing else. -/
theorem discardFile_of_mapFile {bytes : ByteArray} (mapped : directory.mapFile name = .ok bytes) :
    (directory.discardFile name).item? (Directory.path name) = none ∧
      Confined name directory (directory.discardFile name) := by
  rcases fetch_eq_ok.mp mapped with ⟨parents, stands⟩
  have inner : Directory.path name ≠ [] := by
    intro outermost
    rw [outermost] at stands
    cases stands
  have removed : directory.removeFile name = .ok (directory.drop (Directory.path name)) := by
    rw [removeFile, parents, stands]
    rfl
  rw [discardFile, removed]
  exact ⟨item?_drop _ inner, fun other differ _ => item?_drop_of_ne differ,
    .inr (item?_drop_of_ne (path_provisional_ne name))⟩

end Changes

/-- Directly in a directory that is empty, a file can be written. -/
theorem exists_replaceFile_empty {name part beside : String}
    (here : Directory.path name = [part]) (there : Directory.path (provisional name) = [beside])
    (bytes : ByteArray) : ∃ replaced, empty.replaceFile name bytes = (.ok (), replaced) := by
  have parents : ∀ (directory : Directory) (part : String),
      directory.checkParents [part] = .ok () := fun _ _ => rfl
  have first : empty.writeFile (provisional name) bytes =
      .ok (empty.place [beside] (.file bytes)) := by
    rw [writeFile_eq_ok, there]
    exact ⟨parents _ _, nofun, rfl⟩
  have apart : [part] ≠ [beside] := here ▸ there ▸ (path_provisional_ne name).symm
  have second : (empty.place [beside] (.file bytes)).writeFile name bytes =
      .ok ((empty.place [beside] (.file bytes)).place [part] (.file bytes)) := by
    rw [writeFile_eq_ok, here, item?_place_of_ne apart]
    exact ⟨parents _ _, nofun, rfl⟩
  exact ⟨_, replaceFile_eq_ok.mpr ⟨_, _, first, second, rfl⟩⟩

end Directory

end Lexicon

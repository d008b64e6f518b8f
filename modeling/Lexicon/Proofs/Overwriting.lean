/-
Module: Lexicon.Proofs.Overwriting
Layer: Proofs
Purpose: A terminal record is read exactly where its bytes stand.  So overwriting the pointer of one
  changes what is read of it there, and nothing of what is read of any other, at whatever offset and
  in whatever buffer.
Imports: Lexicon.Proofs.Forest.Fidelity, Lexicon.Proofs.Record, Mathlib.Logic.Relation
Trusted boundary: none
Main exports: Buffer.shows_overwrite_iff, Reader.Consumes.times, Terminal.readAt_eq_some_iff,
  Terminal.Reaches, Terminal.Repointed, Terminal.repointed_patch
-/
import Lexicon.Proofs.Forest.Fidelity
import Lexicon.Proofs.Record
import Mathlib.Logic.Relation

namespace Lexicon

/-! ### Bytes apart from those that are overwritten -/

namespace Buffer

variable {buffer : ByteArray} {offset place : Nat} {shown new : List UInt8}

theorem getElem?_overwrite_of_apart {index : Nat}
    (apart : index < place ∨ place + new.length ≤ index) :
    (bytes (overwrite buffer place new))[index]? = (bytes buffer)[index]? := by
  induction new generalizing buffer place with
  | nil => rfl
  | cons byte new ih =>
      rw [List.length_cons] at apart
      rw [overwrite]
      split
      next inside =>
        have other : place ≠ index := by omega
        rw [ih (by omega), bytes, ByteArray.data_set, Array.toList_set, ← bytes,
          List.getElem?_set_ne other]
      next => rfl

/-- Which bytes stand at an offset is told byte by byte. -/
theorem shows_iff_getElem? :
    Shows buffer offset shown ↔
      ∀ index, (inside : index < shown.length) →
        (bytes buffer)[offset + index]? = some shown[index] := by
  have front : Shows buffer offset shown ↔ shown <+: (bytes buffer).drop offset := by
    constructor
    · rintro ⟨after, view⟩
      exact ⟨after, view.symm⟩
    · rintro ⟨after, view⟩
      exact ⟨after, view.symm⟩
  simp only [front, List.prefix_iff_getElem?, List.getElem?_drop]

/-- Bytes apart from those that are overwritten stand where they stood, and no others do. -/
theorem shows_overwrite_iff
    (apart : offset + shown.length ≤ place ∨ place + new.length ≤ offset) :
    Shows (overwrite buffer place new) offset shown ↔ Shows buffer offset shown := by
  have same : ∀ index, index < shown.length →
      (bytes (overwrite buffer place new))[offset + index]? = (bytes buffer)[offset + index]? := by
    intro index inside
    exact getElem?_overwrite_of_apart (by omega)
  rw [shows_iff_getElem?, shows_iff_getElem?]
  constructor
  · intro shows index inside
    rw [← same index inside, shows index inside]
  · intro shows index inside
    rw [same index inside, shows index inside]

/-- Some bytes that stand in a buffer have others before and behind them. -/
theorem Shows.exists_split (shows : Shows buffer offset shown) (some : shown ≠ []) :
    ∃ before after, before.length = offset ∧ bytes buffer = before ++ shown ++ after := by
  have long := shows.length_le some
  obtain ⟨after, view⟩ := shows
  refine ⟨(bytes buffer).take offset, after, ?_, ?_⟩
  · rw [List.length_take, length_bytes]
    omega
  · rw [List.append_assoc, ← view, List.take_append_drop]

end Buffer

/-! ### What a terminal record is read from -/

namespace Reader.Consumes

theorem signed : Consumes signed fun value taken => taken = LittleEndian.encodeSigned value := by
  refine (number 4).bind fun pattern taken ⟨same, small⟩ => pure ?_
  have back : (LittleEndian.signedOfNat pattern).toUInt32.toNat = pattern := by
    have limit : LittleEndian.span 4 = 4294967296 := rfl
    simp only [LittleEndian.signedOfNat, UInt32.toUInt32_toInt32, UInt32.toNat_ofNat']
    omega
  rw [List.append_nil, same, LittleEndian.encodeSigned, back]

/-- Values of one kind are read from their bytes, one after the other. -/
theorem times {α : Type} {reader : Reader α} {encode : α → List UInt8}
    (each : Consumes reader fun value taken => taken = encode value) (count : Nat) :
    Consumes (times reader count) fun values taken =>
      values.length = count ∧ taken = values.flatMap encode := by
  induction count with
  | zero => exact pure ⟨rfl, rfl⟩
  | succ count ih =>
      refine each.bind fun value taken here => ih.bind fun values more there => pure ?_
      obtain ⟨length, rest⟩ := there
      subst here rest
      exact ⟨by rw [List.length_cons, length], by simp⟩

end Reader.Consumes

namespace Terminal

open Reader (Consumes)

/-- A terminal record is read from the bytes that are written for it. -/
theorem consumes_read : Consumes read fun terminal taken =>
    terminal.word.Storable ∧ terminal.unigram < LittleEndian.span 4 ∧ taken = terminal.encode := by
  refine Consumes.byte.bind fun length lengthByte here => ?_
  subst here
  split
  next =>
    intro cursor next terminal done
    cases done
  next fits =>
    refine (Consumes.times .signed _).bind fun word letters ⟨long, spelled⟩ =>
      (Consumes.number 4).bind fun unigram pointer ⟨same, small⟩ => .pure ?_
    subst spelled same
    simp only [Bool.or_eq_true, decide_eq_true_eq, not_or, Nat.not_lt] at fits
    refine ⟨⟨?_, long ▸ fits.2⟩, small, ?_⟩
    · rintro rfl
      exact fits.1 long.symm
    · simp [encode, Word.encode, long]

/-- At an offset a terminal record is read exactly if it is one that can be stored, and its bytes stand
there. -/
theorem readAt_eq_some_iff {buffer : ByteArray} {offset : Nat} {terminal : Terminal} :
    readAt buffer offset = some terminal ↔
      (terminal.word.Storable ∧ terminal.unigram < LittleEndian.span 4) ∧
        Buffer.Shows buffer offset terminal.encode := by
  constructor
  · intro found
    rw [readAt, Option.map_eq_some_iff] at found
    obtain ⟨⟨given, size⟩, ran, rfl⟩ := found
    rw [Reader.runAt] at ran
    split at ran
    next value cursor done =>
      cases ran
      obtain ⟨taken, passed, storable, fits, rfl⟩ := consumes_read _ _ _ done
      exact ⟨⟨storable, fits⟩, _, passed.view⟩
    next => cases ran
  · rintro ⟨⟨storable, fits⟩, shows⟩
    exact readAt_of_shows storable fits shows

/-! ### Records one after the other -/

/-- Behind a record that can be read there is the place of the next one. -/
def Precedes (buffer : ByteArray) (offset next : Nat) : Prop :=
  ∃ terminal, readAt buffer offset = some terminal ∧ next = offset + terminal.size

/-- Reading one record after the other from an offset on leads to another offset. -/
abbrev Reaches (buffer : ByteArray) : Nat → Nat → Prop := Relation.ReflTransGen (Precedes buffer)

theorem rightUnique_precedes (buffer : ByteArray) : Relator.RightUnique (Precedes buffer) := by
  rintro offset first second ⟨terminal, read, rfl⟩ ⟨other, again, rfl⟩
  cases read.symm.trans again
  rfl

theorem le_of_reaches {buffer : ByteArray} {start offset : Nat}
    (reaches : Reaches buffer start offset) : start ≤ offset := by
  induction reaches with
  | refl => exact Nat.le_refl _
  | tail _ precedes ih =>
      obtain ⟨terminal, _, rfl⟩ := precedes
      exact Nat.le_add_right_of_le ih

/-! ### A new pointer -/

/-- The record with another pointer. -/
def repoint (terminal : Terminal) (pointer : Nat) : Terminal := { terminal with unigram := pointer }

@[simp] theorem size_repoint (terminal : Terminal) (pointer : Nat) :
    (terminal.repoint pointer).size = terminal.size := rfl

/-- From one buffer to another the pointer of the record at an offset is replaced.  No other byte is.
The record is read there with the new pointer.  Every record that shares no byte with the pointer is
read as before, wherever it stands.  And among the records of a row that the record belongs to it is
the only one that is read otherwise, and the row goes on as before. -/
structure Repointed (buffer patched : ByteArray) (offset : Nat) (terminal : Terminal)
    (pointer : Nat) : Prop where
  size : patched.size = buffer.size
  bytes : ∀ {index : Nat},
    index < offset + terminal.pointerField ∨ offset + terminal.size ≤ index →
      (Buffer.bytes patched)[index]? = (Buffer.bytes buffer)[index]?
  here : readAt patched offset = some (terminal.repoint pointer)
  apart : ∀ {other : Nat} {record : Terminal},
    other + record.size ≤ offset + terminal.pointerField ∨ offset + terminal.size ≤ other →
      (readAt patched other = some record ↔ readAt buffer other = some record)
  row : ∀ {start other : Nat}, Reaches buffer start offset →
    (Reaches patched start other ↔ Reaches buffer start other) ∧
      (Reaches buffer start other → readAt patched other =
        (readAt buffer other).map fun record =>
          if other = offset then record.repoint pointer else record)

/-- The buffer with another pointer in the record at an offset. -/
abbrev patch (buffer : ByteArray) (offset : Nat) (terminal : Terminal) (pointer : Nat) : ByteArray :=
  Buffer.overwrite buffer (offset + terminal.pointerField) (LittleEndian.encode 4 pointer)

section Patch

variable {buffer : ByteArray} {offset pointer start other : Nat} {terminal record : Terminal}

/-- With the pointer overwritten the bytes of the record are those of the one with the new pointer,
between the same bytes as before. -/
theorem bytes_patch {before after : List UInt8} (pointer : Nat)
    (content : Buffer.bytes buffer = before ++ terminal.encode ++ after) :
    Buffer.bytes (patch buffer before.length terminal pointer) =
      before ++ (terminal.repoint pointer).encode ++ after := by
  have cut : Buffer.bytes buffer =
      (before ++ terminal.word.encode) ++ LittleEndian.encode 4 terminal.unigram ++ after := by
    rw [content, encode]
    simp only [List.append_assoc]
  have place : before.length + terminal.pointerField =
      (before ++ terminal.word.encode).length := by
    rw [List.length_append, Word.length_encode, pointerField]
  rw [patch, place, Buffer.bytes_overwrite cut (by simp), encode, repoint]
  simp only [List.append_assoc]

theorem getElem?_patch_of_apart {index : Nat}
    (apart : index < offset + terminal.pointerField ∨ offset + terminal.size ≤ index) :
    (Buffer.bytes (patch buffer offset terminal pointer))[index]? = (Buffer.bytes buffer)[index]? := by
  have own : terminal.size = terminal.pointerField + 4 := rfl
  refine Buffer.getElem?_overwrite_of_apart ?_
  rw [LittleEndian.length_encode]
  omega

theorem readAt_patch_of_apart
    (apart : other + record.size ≤ offset + terminal.pointerField ∨ offset + terminal.size ≤ other) :
    readAt (patch buffer offset terminal pointer) other = some record ↔
      readAt buffer other = some record := by
  have clear : other + record.encode.length ≤ offset + terminal.pointerField ∨
      offset + terminal.pointerField + (LittleEndian.encode 4 pointer).length ≤ other := by
    have own : terminal.size = terminal.pointerField + 4 := rfl
    rw [length_encode, LittleEndian.length_encode]
    omega
  rw [readAt_eq_some_iff, readAt_eq_some_iff, Buffer.shows_overwrite_iff clear]

theorem readAt_patch_self (read : readAt buffer offset = some terminal)
    (fits : pointer < LittleEndian.span 4) :
    readAt (patch buffer offset terminal pointer) offset = some (terminal.repoint pointer) := by
  obtain ⟨⟨storable, _⟩, shows⟩ := readAt_eq_some_iff.mp read
  obtain ⟨before, after, rfl, content⟩ := shows.exists_split nofun
  exact readAt_of_shows storable fits (Buffer.Shows.between (bytes_patch pointer content))

/-- Of the records of a row only the one with the new pointer is read otherwise. -/
theorem readAt_patch_row (read : readAt buffer offset = some terminal)
    (fits : pointer < LittleEndian.span 4) (leads : Reaches buffer start offset)
    (reaches : Reaches buffer start other) :
    readAt (patch buffer offset terminal pointer) other =
      (readAt buffer other).map fun record =>
        if other = offset then record.repoint pointer else record := by
  have here : readAt (patch buffer offset terminal pointer) offset =
      (readAt buffer offset).map fun record =>
        if offset = offset then record.repoint pointer else record := by
    rw [readAt_patch_self read fits, read, Option.map_some, if_pos rfl]
  -- two places of a row are the same, or one lies behind the whole record at the other
  rcases Relation.ReflTransGen.total_of_right_unique (rightUnique_precedes buffer) leads reaches with
    onward | onward
  · rcases onward.cases_head with rfl | ⟨next, ⟨found, again, rfl⟩, further⟩
    · exact here
    · cases read.symm.trans again
      have behind := le_of_reaches further
      have differ : other ≠ offset := by
        have positive := terminal.size_pos
        omega
      have same : readAt (patch buffer offset terminal pointer) other = readAt buffer other :=
        Option.ext fun record => readAt_patch_of_apart (.inr behind)
      simp [same, differ]
  · rcases onward.cases_head with rfl | ⟨next, ⟨found, again, rfl⟩, further⟩
    · exact here
    · have ahead := le_of_reaches further
      have differ : other ≠ offset := by
        have positive := found.size_pos
        omega
      have same : readAt (patch buffer offset terminal pointer) other = some found :=
        (readAt_patch_of_apart (.inl (by omega))).mpr again
      simp [same, again, differ]

/-- Overwriting the pointer of a terminal record replaces that pointer and changes no other terminal
record. -/
theorem repointed_patch (read : readAt buffer offset = some terminal)
    (fits : pointer < LittleEndian.span 4) :
    Repointed buffer (patch buffer offset terminal pointer) offset terminal pointer := by
  refine ⟨Buffer.size_overwrite _ _ _, getElem?_patch_of_apart, readAt_patch_self read fits,
    readAt_patch_of_apart, ?_⟩
  intro start other leads
  refine ⟨?_, readAt_patch_row read fits leads⟩
  -- records of the row keep their sizes, so that the next ones stand where they stood
  have step : ∀ {place next : Nat}, Reaches buffer start place →
      (Precedes (patch buffer offset terminal pointer) place next ↔
        Precedes buffer place next) := by
    intro place next reaches
    rw [Precedes, Precedes, readAt_patch_row read fits leads reaches]
    cases readAt buffer place with
    | none => simp
    | some record =>
        by_cases same : place = offset
        · simp [same]
        · simp [same]
  constructor
  · intro reaches
    induction reaches with
    | refl => exact .refl
    | tail _ precedes ih => exact ih.tail ((step ih).mp precedes)
  · intro reaches
    induction reaches with
    | refl => exact .refl
    | tail reaches precedes ih => exact ih.tail ((step reaches).mpr precedes)

end Patch

end Terminal

end Lexicon

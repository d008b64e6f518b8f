/-
Module: Lexicon.Proofs.Forest.Storage
Layer: Proofs
Purpose: Slots and forests are read back from their bytes as they were written, and what a reader
  that may refuse takes.
Imports: Lexicon.Forest.Storage, Lexicon.Proofs.Bytes.Reads, Lexicon.Proofs.Forest.Tree
Trusted boundary: none
Main exports: Slot.reads, Forest.reads_slots, Cursor.Shows, CheckedReader.Gives, CheckedReader.Takes,
  CheckedReader.Yields, Forest.reloaded, Forest.gives_read, Forest.takes_read
-/
import Lexicon.Forest.Storage
import Lexicon.Proofs.Bytes.Reads
import Lexicon.Proofs.Forest.Tree

namespace Lexicon

/-! ### Numbers and slots -/

namespace Reader

/-- A number that does not fit is read back without what was dropped. -/
theorem Reads.number_mod (width value : Nat) :
    Reads (Reader.number width) (LittleEndian.encode width value)
      (value % LittleEndian.span width) := by
  have again := LittleEndian.encode_decode (LittleEndian.encode width value)
  have small := LittleEndian.decode_lt (LittleEndian.encode width value)
  rw [LittleEndian.length_encode] at again small
  have reads := Reads.number small
  rw [again, LittleEndian.decode_encode] at reads
  exact reads

end Reader

open Reader (Reads)

/-- A node is read back as it was written: where an entry has its mark, it has less than the mark. -/
theorem Slot.reads_node {labels : LabelSet} {run spare : Nat}
    (storable : (Slot.node labels run spare).Storable) :
    Reads read (Slot.node labels run spare).encode (.node labels run spare) := by
  have mark : entryMark = 2147483648 := rfl
  have four : LittleEndian.span 4 = 4294967296 := rfl
  obtain ⟨low, wide⟩ := storable
  rw [mark, four] at wide
  have bits : labels.bits.toNat < LittleEndian.span 4 := labels.bits.isLt
  have parts : Reads read
      (LittleEndian.encode 4 run ++ (LittleEndian.encode 4 (spare % entryMark) ++
        (LittleEndian.encode 4 labels.bits.toNat ++
          (LittleEndian.encode 4 (spare / entryMark) ++ [])))) (.node labels run spare) := by
    have first : spare % entryMark < LittleEndian.span 4 := by
      rw [mark, four]
      omega
    have second : spare / entryMark < LittleEndian.span 4 := by
      rw [mark, four]
      omega
    refine (Reads.number low).bind ((Reads.number first).bind ?_)
    rw [if_pos (Nat.mod_lt _ (by omega))]
    refine (Reads.number bits).bind ((Reads.number second).bind ?_)
    have same : (⟨BitVec.ofNat 32 labels.bits.toNat⟩ : LabelSet) = labels := by
      rw [BitVec.ofNat_toNat, BitVec.setWidth_eq]
    rw [same, Nat.mod_add_div]
    exact Reads.pure _
  simpa [encode] using parts

/-- An entry is read back as it was written, also one with no table nested below it, for which zero
stands. -/
theorem Slot.reads_entry {key : Int32} {value : Nat} {nested : Option Nat}
    (storable : (Slot.entry key value nested).Storable) :
    Reads read (Slot.entry key value nested).encode (.entry key value nested) := by
  have mark : entryMark = 2147483648 := rfl
  have four : LittleEndian.span 4 = 4294967296 := rfl
  have eight : LittleEndian.span 8 = 18446744073709551616 := rfl
  have largest : Forest.maxValue = 68719476735 := rfl
  obtain ⟨small, inside⟩ := storable
  have pattern : key.toUInt32.toNat < LittleEndian.span 4 := key.toUInt32.toNat_lt
  have table : nested.getD 0 < entryMark := by
    cases nested with
    | none => exact Nat.zero_lt_of_lt (by omega : 0 < entryMark)
    | some table => exact (inside table rfl).2
  have parts : Reads read (LittleEndian.encode 4 key.toUInt32.toNat ++
      (LittleEndian.encode 4 (entryMark + nested.getD 0) ++ (LittleEndian.encode 8 value ++ [])))
        (.entry key value nested) := by
    refine (Reads.number pattern).bind ((Reads.number (by omega)).bind ?_)
    rw [if_neg (by omega)]
    refine (Reads.number (by omega)).bind ?_
    have same : (if entryMark + nested.getD 0 - entryMark = 0 then none
        else some (entryMark + nested.getD 0 - entryMark)) = nested := by
      rw [Nat.add_sub_cancel_left]
      cases nested with
      | none => rfl
      | some other => exact if_neg (Nat.pos_iff_ne_zero.mp (inside other rfl).1)
    dsimp only
    rw [same, LittleEndian.signedOfNat_toNat]
    exact Reads.pure _
  simpa [encode, LittleEndian.encodeSigned] using parts

/-- A slot is read back as it was written. -/
theorem Slot.reads {slot : Slot} (storable : slot.Storable) : Reads read slot.encode slot := by
  cases slot with
  | node => exact reads_node storable
  | entry => exact reads_entry storable

/-- Slots are read back in order. -/
theorem Forest.reads_slots {slots : List Slot} (storable : ∀ slot ∈ slots, slot.Storable) :
    ∀ read : Array Slot,
      Reads (readSlots slots.length read) (slots.flatMap Slot.encode) (read ++ slots.toArray) := by
  induction slots with
  | nil =>
      intro read
      simpa [readSlots] using Reads.pure read
  | cons slot slots ih =>
      intro read
      obtain ⟨here, there⟩ := List.forall_mem_cons.mp storable
      have rest : Reads (readSlots (slots.length + 1) read)
          (slot.encode ++ slots.flatMap Slot.encode) (read.push slot ++ slots.toArray) :=
        (Slot.reads here).bind (ih there (read.push slot))
      simpa using rest

/-! ### Readers that may refuse -/

/-- Bytes stand ahead of a place that is not behind the end. -/
structure Cursor.Shows (cursor : Cursor) (ahead : List UInt8) : Prop where
  inside : cursor.position ≤ cursor.bytes.size
  rest : cursor.rest = ahead

theorem Cursor.Shows.advance {cursor : Cursor} {encoded after : List UInt8}
    (shows : cursor.Shows (encoded ++ after)) :
    Cursor.Shows { cursor with position := cursor.position + encoded.length } after := by
  obtain ⟨inside, view⟩ := shows
  refine ⟨?_, Reader.rest_advance view⟩
  have length := congrArg List.length view
  rw [Cursor.length_rest, Cursor.left, List.length_append] at length
  show cursor.position + encoded.length ≤ cursor.bytes.size
  omega

namespace CheckedReader

variable {α β : Type} {holds : α → Prop} {wants : β → Prop}

/-- If the reader accepts what stands before it, it takes just these bytes, for a value of which
something holds. -/
def Gives (reader : CheckedReader α) (encoded : List UInt8) (holds : α → Prop) : Prop :=
  ∀ (cursor : Cursor) (after : List UInt8), cursor.Shows (encoded ++ after) →
    ∀ {answer : α} {next : Cursor}, reader cursor = .ok (answer, next) →
      holds answer ∧ next = { cursor with position := cursor.position + encoded.length }

namespace Gives

theorem pure {value : α} (fact : holds value) : Gives (Pure.pure value) [] holds := by
  intro cursor after _ answer next done
  cases done
  exact ⟨fact, rfl⟩

theorem refuse (fault : FormatFault) (encoded : List UInt8) :
    Gives (CheckedReader.refuse fault : CheckedReader α) encoded holds := by
  intro cursor after _ answer next done
  cases done

theorem bind {first : CheckedReader α} {next : α → CheckedReader β} {encoded further : List UInt8}
    (gives : Gives first encoded holds)
    (rest : ∀ {value}, holds value → Gives (next value) further wants) :
    Gives (first >>= next) (encoded ++ further) wants := by
  intro cursor after shows answer last done
  rw [List.append_assoc] at shows
  change (first cursor >>= fun outcome => next outcome.1 outcome.2) = _ at done
  cases outcome : first cursor with
  | error error =>
      rw [outcome] at done
      cases done
  | ok step =>
      obtain ⟨value, middle⟩ := step
      rw [outcome] at done
      obtain ⟨fact, rfl⟩ := gives cursor _ shows outcome
      obtain ⟨want, rfl⟩ := rest fact _ after shows.advance done
      refine ⟨want, ?_⟩
      rw [List.length_append, Nat.add_assoc]

theorem require (check : Except FormatFault Unit) :
    Gives (CheckedReader.require check) [] fun _ => True := by
  cases check with
  | ok => exact .pure trivial
  | error fault => exact .refuse fault []

end Gives

/-- The reader accepts these bytes and takes just them for a value, whatever follows them. -/
def Takes (reader : CheckedReader α) (encoded : List UInt8) (value : α) : Prop :=
  ∀ (cursor : Cursor) (after : List UInt8), cursor.Shows (encoded ++ after) →
    reader cursor = .ok (value, { cursor with position := cursor.position + encoded.length })

namespace Takes

theorem pure (value : α) : Takes (Pure.pure value) [] value := fun _ _ _ => rfl

theorem of_reads {reader : Reader α} {encoded : List UInt8} {value : α}
    (reads : Reads reader encoded value) :
    Takes (CheckedReader.ofReader reader) encoded value := by
  intro cursor after shows
  rw [CheckedReader.ofReader, reads cursor after shows.rest]

theorem bind {first : CheckedReader α} {next : α → CheckedReader β} {encoded further : List UInt8}
    {value : α} {answer : β} (takes : Takes first encoded value)
    (rest : Takes (next value) further answer) :
    Takes (first >>= next) (encoded ++ further) answer := by
  intro cursor after shows
  rw [List.append_assoc] at shows
  have behind := rest _ after shows.advance
  show (first cursor >>= fun outcome => next outcome.1 outcome.2) = _
  rw [takes cursor _ shows]
  show next value _ = _
  rw [behind, List.length_append, Nat.add_assoc]

theorem require {check : Except FormatFault Unit} (passed : check = .ok ()) :
    Takes (CheckedReader.require check) [] () := by
  rw [passed]
  exact .pure ()

/-- What is taken for a value of which something holds gives that. -/
theorem gives {reader : CheckedReader α} {encoded : List UInt8} {value : α}
    (takes : Takes reader encoded value) (fact : holds value) : Gives reader encoded holds := by
  intro cursor after shows answer next done
  rw [takes cursor after shows] at done
  cases done
  exact ⟨fact, rfl⟩

end Takes

theorem Gives.of_reads {reader : Reader α} {encoded : List UInt8} {value : α}
    (reads : Reads reader encoded value) (fact : holds value) :
    Gives (CheckedReader.ofReader reader) encoded holds :=
  (Takes.of_reads reads).gives fact

/-- Whatever bytes the reader meets, something holds of what it accepts. -/
def Yields (reader : CheckedReader α) (holds : α → Prop) : Prop :=
  ∀ (cursor next : Cursor) (answer : α), reader cursor = .ok (answer, next) → holds answer

namespace Yields

theorem any (reader : CheckedReader α) : Yields reader fun _ => True := fun _ _ _ _ => trivial

theorem pure {value : α} (fact : holds value) : Yields (Pure.pure value) holds := by
  intro cursor next answer done
  cases done
  exact fact

theorem refuse (fault : FormatFault) :
    Yields (CheckedReader.refuse fault : CheckedReader α) holds := by
  intro cursor next answer done
  cases done

theorem bind {first : CheckedReader α} {next : α → CheckedReader β} (yields : Yields first holds)
    (rest : ∀ value, holds value → Yields (next value) wants) : Yields (first >>= next) wants := by
  intro cursor last answer done
  obtain ⟨⟨value, middle⟩, found, done⟩ := exists_of_bind done
  exact rest value (yields _ _ _ found) _ _ _ done

theorem require (check : Except FormatFault Unit) :
    Yields (CheckedReader.require check) fun _ => check = .ok () := by
  cases check with
  | ok => exact .pure rfl
  | error fault => exact .refuse fault

theorem ofReader {reader : Reader α} (yields : reader.Yields holds) :
    Yields (CheckedReader.ofReader reader) holds := by
  intro cursor next answer done
  rw [CheckedReader.ofReader] at done
  split at done
  next outcome found =>
    cases done
    exact yields _ _ _ found
  next => cases done

end Yields

end CheckedReader

open CheckedReader (Gives Takes)

namespace Forest

variable {forest : Forest}

/-- A forest as it is read back: the same slots, none of them free. -/
def reloaded (forest : Forest) : Forest :=
  { arena := Arena.ofSlots forest.arena.slots, count := forest.count }

theorem length_encode (forest : Forest) : forest.encode.length = 12 + forest.usedBytes := by
  have slots : ∀ slots : List Slot,
      (slots.flatMap Slot.encode).length = slots.length * Slot.byteSize := by
    intro slots
    induction slots with
    | nil => rfl
    | cons slot slots ih =>
        rw [List.flatMap_cons, List.length_append, ih, Slot.length_encode, List.length_cons,
          Nat.succ_mul, Nat.add_comm]
  simp only [encode, List.length_append, LittleEndian.length_encode, slots, usedBytes, slotCount,
    Array.length_toList]

/-- The slots of a sane arena have a stored form. -/
theorem storable_slots (sane : forest.arena.Sane) :
    ∀ slot ∈ forest.arena.slots.toList, slot.Storable := by
  intro slot member
  obtain ⟨index, inside, rfl⟩ := List.mem_iff_getElem.mp member
  have here := sane.storable index
  rw [Arena.slot_eq_getElem?, Array.getElem?_eq_getElem (by simpa using inside)] at here
  simpa using here

theorem slotCount_lt (sane : forest.arena.Sane) : forest.slotCount < LittleEndian.span 4 := by
  have limit : maxSlots < LittleEndian.span 4 := by decide
  exact Nat.lt_of_le_of_lt sane.bounded limit

/-- A forest that is read has the slots that were written. -/
theorem gives_read (sane : forest.arena.Sane) :
    Gives read forest.encode fun answer => answer.arena = Arena.ofSlots forest.arena.slots := by
  have parts : Gives read (LittleEndian.encode 4 forest.slotCount ++
      (LittleEndian.encode 8 forest.count ++
        (forest.arena.slots.toList.flatMap Slot.encode ++ ([] ++ ([] ++ [])))))
          fun answer => answer.arena = Arena.ofSlots forest.arena.slots := by
    refine (Gives.of_reads (Reads.number (slotCount_lt sane)) rfl).bind ?_
    rintro _ rfl
    have counted : Gives (CheckedReader.ofReader (Reader.number 8))
        (LittleEndian.encode 8 forest.count) fun _ => True :=
      .of_reads (Reads.number_mod 8 forest.count) trivial
    refine counted.bind fun _ => ?_
    split
    next => exact .refuse _ _
    next =>
      have length : forest.slotCount = forest.arena.slots.toList.length := by simp [slotCount]
      rw [length]
      refine (Gives.of_reads (reads_slots (storable_slots sane) #[]) rfl).bind ?_
      rintro _ rfl
      refine (Gives.require _).bind fun _ => (Gives.require _).bind fun _ => .pure ?_
      simp
  simpa [encode] using parts

/-- A forest whose slots pass the checks is read back, but for its free runs and what does not fit of
its number of entries. -/
theorem takes_read_mod (sane : forest.arena.Sane) (some : forest.slotCount ≠ 0)
    (each : checkSlots forest.arena.slots = .ok ())
    (whole : checkReachable forest.arena.slots = .ok ()) :
    Takes read forest.encode
      ⟨Arena.ofSlots forest.arena.slots, forest.count % LittleEndian.span 8⟩ := by
  have bounded : forest.slotCount ≤ maxSlots := sane.bounded
  have length : forest.slotCount = forest.arena.slots.toList.length := by simp [slotCount]
  have all : #[] ++ forest.arena.slots.toList.toArray = forest.arena.slots := by simp
  have parts : Takes read (LittleEndian.encode 4 forest.slotCount ++
      (LittleEndian.encode 8 forest.count ++
        (forest.arena.slots.toList.flatMap Slot.encode ++ ([] ++ ([] ++ [])))))
          ⟨Arena.ofSlots forest.arena.slots, forest.count % LittleEndian.span 8⟩ := by
    refine (Takes.of_reads (Reads.number (slotCount_lt sane))).bind ?_
    refine (Takes.of_reads (Reads.number_mod 8 forest.count)).bind ?_
    rw [if_neg (by simp only [Bool.or_eq_true, decide_eq_true_eq]; omega)]
    have slots := Takes.of_reads (reads_slots (storable_slots sane) #[])
    rw [all, ← length] at slots
    exact slots.bind ((Takes.require each).bind ((Takes.require whole).bind (.pure _)))
  simpa [encode] using parts

/-- A forest whose slots pass the checks is read back, but for its free runs. -/
theorem takes_read (sane : forest.arena.Sane) (some : forest.slotCount ≠ 0)
    (few : forest.count < LittleEndian.span 8) (each : checkSlots forest.arena.slots = .ok ())
    (whole : checkReachable forest.arena.slots = .ok ()) :
    Takes read forest.encode forest.reloaded := by
  have takes := takes_read_mod sane some each whole
  rw [Nat.mod_eq_of_lt few] at takes
  exact takes

end Forest

end Lexicon

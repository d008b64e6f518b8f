/-
Module: Lexicon.Proofs.Forest.Fidelity
Layer: Proofs
Purpose: What a reader has taken is what is written for the value that it gave, to the last bit: also
  for slots that no table has, and for the bits of a node that nothing uses.
Imports: Lexicon.Proofs.Forest.Acceptance
Trusted boundary: none
Main exports: Cursor.Passes, Reader.Consumes, CheckedReader.Consumes, Slot.consumes_read,
  Forest.consumes_read, Forest.yields_takes
-/
import Lexicon.Proofs.Forest.Acceptance

namespace Lexicon

/-! ### What a reader has taken -/

/-- A cursor goes on to another one behind some bytes. -/
structure Cursor.Passes (cursor : Cursor) (taken : List UInt8) (next : Cursor) : Prop where
  view : cursor.rest = taken ++ next.rest
  moved : next = { cursor with position := cursor.position + taken.length }

namespace Cursor.Passes

variable {cursor middle last : Cursor} {taken more : List UInt8}

theorem refl (cursor : Cursor) : cursor.Passes [] cursor := ⟨rfl, rfl⟩

theorem trans (first : cursor.Passes taken middle) (second : middle.Passes more last) :
    cursor.Passes (taken ++ more) last := by
  constructor
  · rw [first.view, second.view, List.append_assoc]
  · rw [second.moved, first.moved, List.length_append, Nat.add_assoc]

end Cursor.Passes

namespace Reader

variable {α β : Type} {holds : α → List UInt8 → Prop} {wants : β → List UInt8 → Prop}

/-- Whenever the reader gives a value, it has taken bytes that have something to do with it. -/
def Consumes (reader : Reader α) (holds : α → List UInt8 → Prop) : Prop :=
  ∀ (cursor next : Cursor) (value : α), reader cursor = some (value, next) →
    ∃ taken, cursor.Passes taken next ∧ holds value taken

namespace Consumes

theorem pure {value : α} (fact : holds value []) : Consumes (Pure.pure value) holds := by
  intro cursor next value done
  cases done
  exact ⟨[], .refl cursor, fact⟩

theorem bind {first : Reader α} {next : α → Reader β} (consumes : Consumes first holds)
    (rest : ∀ value taken, holds value taken →
      Consumes (next value) fun answer more => wants answer (taken ++ more)) :
    Consumes (first >>= next) wants := by
  intro cursor last answer done
  change (first cursor).bind (fun outcome => next outcome.1 outcome.2) = _ at done
  rcases Option.bind_eq_some_iff.mp done with ⟨⟨value, middle⟩, found, done⟩
  rcases consumes _ _ _ found with ⟨taken, passed, fact⟩
  rcases rest value taken fact _ _ _ done with ⟨more, passedMore, want⟩
  exact ⟨taken ++ more, passed.trans passedMore, want⟩

theorem byte : Consumes byte fun value taken => taken = [value] := by
  intro cursor next value done
  rcases byte_eq_some_iff.mp done with ⟨view, moved⟩
  exact ⟨[value], ⟨view, moved⟩, rfl⟩

/-- A number is read from the bytes that are written for it, and fits them. -/
theorem number (width : Nat) : Consumes (number width) fun value taken =>
    taken = LittleEndian.encode width value ∧ value < LittleEndian.span width := by
  induction width with
  | zero => exact pure ⟨rfl, Nat.one_pos⟩
  | succ width ih =>
      refine byte.bind fun low taken here => ih.bind fun high more there => pure ?_
      rcases there with ⟨rfl, small⟩
      have bounded := low.toNat_lt
      have head : UInt8.ofNat (low.toNat + 256 * high) = low := by
        apply UInt8.toNat_inj.mp
        rw [UInt8.toNat_ofNat']
        omega
      have tail : (low.toNat + 256 * high) / 256 = high := by omega
      constructor
      · rw [here, LittleEndian.encode, head, tail]
        simp
      · rw [LittleEndian.span]
        omega

end Consumes

end Reader

namespace CheckedReader

variable {α β : Type} {holds : α → List UInt8 → Prop} {wants : β → List UInt8 → Prop}

/-- Whenever the reader accepts, it has taken bytes that have something to do with its answer. -/
def Consumes (reader : CheckedReader α) (holds : α → List UInt8 → Prop) : Prop :=
  ∀ (cursor next : Cursor) (answer : α), reader cursor = .ok (answer, next) →
    ∃ taken, cursor.Passes taken next ∧ holds answer taken

namespace Consumes

theorem pure {value : α} (fact : holds value []) : Consumes (Pure.pure value) holds := by
  intro cursor next answer done
  cases done
  exact ⟨[], .refl cursor, fact⟩

theorem refuse (fault : FormatFault) :
    Consumes (CheckedReader.refuse fault : CheckedReader α) holds := by
  intro cursor next answer done
  cases done

theorem bind {first : CheckedReader α} {next : α → CheckedReader β}
    (consumes : Consumes first holds)
    (rest : ∀ value taken, holds value taken →
      Consumes (next value) fun answer more => wants answer (taken ++ more)) :
    Consumes (first >>= next) wants := by
  intro cursor last answer done
  rcases exists_of_bind done with ⟨⟨value, middle⟩, found, done⟩
  rcases consumes _ _ _ found with ⟨taken, passed, fact⟩
  rcases rest value taken fact _ _ _ done with ⟨more, passedMore, want⟩
  exact ⟨taken ++ more, passed.trans passedMore, want⟩

theorem require (check : Except FormatFault Unit) :
    Consumes (CheckedReader.require check) fun _ taken => taken = [] := by
  cases check with
  | ok => exact .pure rfl
  | error fault => exact .refuse fault

theorem ofReader {reader : Reader α} (consumes : reader.Consumes holds) :
    Consumes (CheckedReader.ofReader reader) holds := by
  intro cursor next answer done
  rw [CheckedReader.ofReader] at done
  split at done
  next outcome found =>
    cases done
    exact consumes _ _ _ found
  next => cases done

/-- What is known of all answers is known of this one, too. -/
theorem and_yields {reader : CheckedReader α} {fact : α → Prop} (consumes : Consumes reader holds)
    (yields : Yields reader fact) :
    Consumes reader fun answer taken => holds answer taken ∧ fact answer := by
  intro cursor next answer done
  rcases consumes _ _ _ done with ⟨taken, passed, here⟩
  exact ⟨taken, passed, here, yields _ _ _ done⟩

theorem number (width : Nat) : Consumes (CheckedReader.ofReader (Reader.number width))
    fun value taken => taken = LittleEndian.encode width value ∧ value < LittleEndian.span width :=
  .ofReader (.number width)

end Consumes

end CheckedReader

/-! ### Slots and forests -/

open Reader (Consumes)

/-- A slot is read from the bytes that are written for it. -/
theorem Slot.consumes_read : Consumes read fun slot taken => taken = slot.encode := by
  have mark : entryMark = 2147483648 := rfl
  have four : LittleEndian.span 4 = 4294967296 := rfl
  refine (Consumes.number 4).bind fun low lowBytes lowFact =>
    (Consumes.number 4).bind fun high highBytes highFact => ?_
  rcases lowFact with ⟨rfl, lowSmall⟩
  rcases highFact with ⟨rfl, highSmall⟩
  split
  next unmarked =>
    refine (Consumes.number 4).bind fun labels labelBytes labelFact =>
      (Consumes.number 4).bind fun above aboveBytes aboveFact => .pure ?_
    rcases labelFact with ⟨rfl, labelSmall⟩
    rcases aboveFact with ⟨rfl, _⟩
    have bits : (BitVec.ofNat 32 labels).toNat = labels := by
      rw [BitVec.toNat_ofNat]
      omega
    have below : (high + entryMark * above) % entryMark = high := by
      rw [Nat.add_mul_mod_self_left, Nat.mod_eq_of_lt unmarked]
    have beyond : (high + entryMark * above) / entryMark = above := by
      rw [Nat.add_mul_div_left _ _ (by omega), Nat.div_eq_of_lt unmarked, Nat.zero_add]
    simp [encode, bits, below, beyond]
  next marked =>
    refine (Consumes.number 8).bind fun value valueBytes valueFact => .pure ?_
    rcases valueFact with ⟨rfl, _⟩
    have pattern : (LittleEndian.signedOfNat low).toUInt32.toNat = low := by
      simp only [LittleEndian.signedOfNat, UInt32.toUInt32_toInt32, UInt32.toNat_ofNat']
      omega
    have table : ∀ mark : Nat, ¬ high < mark →
        mark + (if high - mark = 0 then none else some (high - mark)).getD 0 = high := by
      intro mark above
      split <;> simp only [Option.getD_none, Option.getD_some] <;> omega
    simp [encode, LittleEndian.encodeSigned, pattern, table _ marked]

namespace Forest

/-- Slots are read from the bytes that are written for them, behind those that were read before. -/
theorem consumes_readSlots (count : Nat) : ∀ slots : Array Slot,
    Consumes (readSlots count slots) fun answer taken =>
      ∃ more, answer.toList = slots.toList ++ more ∧ taken = more.flatMap Slot.encode := by
  induction count with
  | zero =>
      intro slots
      exact .pure ⟨[], (List.append_nil _).symm, rfl⟩
  | succ count ih =>
      intro slots
      refine Slot.consumes_read.bind fun slot taken here => ?_
      intro cursor next answer done
      rcases ih (slots.push slot) _ _ _ done with ⟨behind, passed, more, listed, rfl⟩
      refine ⟨_, passed, slot :: more, ?_, ?_⟩
      · rw [listed, Array.toList_push, List.append_assoc, List.singleton_append]
      · rw [here, List.flatMap_cons]

/-- A forest is read from the bytes that are written for it. -/
theorem consumes_read :
    CheckedReader.Consumes read fun forest taken => taken = forest.encode := by
  refine (CheckedReader.Consumes.number 4).bind fun slotCount sizeBytes sizeFact =>
    (CheckedReader.Consumes.number 8).bind fun count countBytes countFact => ?_
  rcases sizeFact with ⟨rfl, _⟩
  rcases countFact with ⟨rfl, _⟩
  split
  next => exact .refuse _
  next =>
    have sized : (readSlots slotCount #[]).Yields _ := yields_readSlots slotCount (by simp)
    have both := (CheckedReader.Consumes.ofReader (consumes_readSlots slotCount #[])).and_yields
      (.ofReader sized)
    refine both.bind fun slots taken ⟨⟨more, listed, same⟩, size, _⟩ => ?_
    subst same
    refine (CheckedReader.Consumes.require _).bind fun _ _ none =>
      (CheckedReader.Consumes.require _).bind fun _ _ noneAgain => .pure ?_
    subst none noneAgain
    have whole : more = slots.toList := listed.symm
    have declared : slots.size = slotCount := size.trans (Nat.zero_add _)
    have kept : (Arena.ofSlots slots).slots = slots := rfl
    simp [encode, Forest.slotCount, whole, kept, ← declared]

/-- The bytes of a forest that was read are accepted, and give it again. -/
theorem yields_takes : CheckedReader.Yields read fun forest =>
    forest.reloaded = forest ∧ CheckedReader.Takes read forest.encode forest.reloaded :=
  fun cursor next forest accepted =>
    have readable := yields_readable cursor next forest accepted
    ⟨readable.reloaded_eq, readable.takes⟩

end Forest

end Lexicon

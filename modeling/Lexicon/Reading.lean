/-
Module: Lexicon.Reading
Layer: Domain
Purpose: Answers that also tell whether a damaged record was met on the way.
Trusted boundary: none
Main exports: Reading, Reading.damage, Reading.ofRecord, Reading.andThen
-/

namespace Lexicon

/-!
Records come from images that may be damaged.  A query never fails because of that: it answers as if
the record were absent, and notes the damage.  The note is part of the answer, so that whoever holds
the dictionary can remember it and refuse to replace what could not be read.
-/

/-- An answer, and whether damage was met while finding it. -/
structure Reading (α : Type) where
  value : α
  damaged : Bool
deriving DecidableEq, Repr

namespace Reading

/-- Readings are made one after the other, and damage met in any of them is damage met. -/
instance : Monad Reading where
  pure value := { value := value, damaged := false }
  bind first next :=
    let second := next first.value
    { value := second.value, damaged := first.damaged || second.damaged }

/-- An absent answer because of damage. -/
def damage {α : Type} : Reading (Option α) := { value := none, damaged := true }

/-- What reading a record gave; a record that cannot be read is damaged. -/
def ofRecord {α : Type} : Option α → Reading (Option α)
  | some value => pure (some value)
  | none => damage

/-- Goes on with an answer if there is one. -/
def andThen {α β : Type} (first : Reading (Option α)) (next : α → Reading (Option β)) :
    Reading (Option β) :=
  first >>= fun
    | some value => next value
    | none => pure none

theorem id_map {α : Type} (reading : Reading α) : id <$> reading = reading := by
  cases reading
  simp [Functor.map]

theorem pure_bind {α β : Type} (value : α) (next : α → Reading β) :
    (pure value >>= next) = next value := by
  simp [bind, pure]

theorem bind_assoc {α β γ : Type} (reading : Reading α) (next : α → Reading β)
    (last : β → Reading γ) :
    (reading >>= next >>= last) = (reading >>= fun value => next value >>= last) := by
  simp [bind, Bool.or_assoc]

instance : LawfulMonad Reading := LawfulMonad.mk' Reading id_map pure_bind bind_assoc

@[simp] theorem damaged_pure {α : Type} (value : α) : (pure value : Reading α).damaged = false := rfl

@[simp] theorem value_pure {α : Type} (value : α) : (pure value : Reading α).value = value := rfl

/-- What a record gave is the answer. -/
@[simp] theorem value_ofRecord {α : Type} (record : Option α) :
    (ofRecord record).value = record := by
  cases record with
  | none => rfl
  | some value => rfl

/-- A record that cannot be read is damage, and no other is. -/
theorem damaged_ofRecord {α : Type} (record : Option α) :
    (ofRecord record).damaged = (ofRecord record).value.isNone := by
  cases record with
  | none => rfl
  | some value => rfl

@[simp] theorem value_bind {α β : Type} (first : Reading α) (next : α → Reading β) :
    (first >>= next).value = (next first.value).value := rfl

@[simp] theorem damaged_bind {α β : Type} (first : Reading α) (next : α → Reading β) :
    (first >>= next).damaged = (first.damaged || (next first.value).damaged) := rfl

end Reading

end Lexicon

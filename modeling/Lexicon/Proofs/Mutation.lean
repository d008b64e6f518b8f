/-
Module: Lexicon.Proofs.Mutation
Layer: Proofs
Purpose: What changes made one after the other do to a state.
Imports: Lexicon.Dictionary.Compaction
Trusted boundary: none
Main exports: Mutation.apply_bind, Mutation.apply_get, Mutation.apply_onPart
-/
import Lexicon.Dictionary.Compaction

namespace Lexicon

namespace Mutation

variable {σ τ α β : Type}

/-- The second change is made on what the first one leaves behind, unless the first is refused. -/
theorem apply_bind (first : Mutation σ α) (next : α → Mutation σ β) (state : σ) :
    (first >>= next).apply state =
      match first.apply state with
      | (.ok value, state) => (next value).apply state
      | (.error error, state) => (.error error, state) := by
  show (ExceptT.run (first >>= next)).run state = _
  rw [ExceptT.run_bind, StateT.run_bind]
  show (match StateT.run (ExceptT.run first) state with | (outcome, state) => _) = _
  simp only [apply]
  generalize StateT.run (ExceptT.run first) state = outcome
  obtain ⟨answer, after⟩ := outcome
  cases answer with
  | ok value => rfl
  | error error => rfl

theorem apply_bind_ok {first : Mutation σ α} {state after : σ} {value : α}
    (done : first.apply state = (.ok value, after)) (next : α → Mutation σ β) :
    (first >>= next).apply state = (next value).apply after := by
  rw [apply_bind, done]

theorem apply_bind_error {first : Mutation σ α} {state after : σ} {error : Error}
    (refused : first.apply state = (.error error, after)) (next : α → Mutation σ β) :
    (first >>= next).apply state = (.error error, after) := by
  rw [apply_bind, refused]

/-- A change that is made only under a condition, before what follows in either case. -/
theorem apply_when_ok {condition : Prop} [Decidable condition] {first : Mutation σ Unit}
    {rest : Mutation σ β} {state after : σ}
    (done : (if condition then first else pure ()).apply state = (.ok (), after)) :
    (if condition then first >>= fun _ => rest else rest).apply state = rest.apply after := by
  split at done
  next holds =>
    rw [if_pos holds]
    exact apply_bind_ok done _
  next fails =>
    rw [if_neg fails]
    cases done
    rfl

@[simp] theorem apply_get (state : σ) : (get : Mutation σ σ).apply state = (.ok state, state) := rfl

@[simp] theorem apply_modify (change : σ → σ) (state : σ) :
    (modify change : Mutation σ Unit).apply state = (.ok (), change state) := rfl

@[simp] theorem apply_ofChange (change : σ → Except Error α × σ) (state : σ) :
    (ofChange change).apply state = change state := rfl

@[simp] theorem apply_onPart (part : σ → τ) (replace : σ → τ → σ) (change : Mutation τ α)
    (state : σ) :
    (onPart part replace change).apply state =
      ((change.apply (part state)).1, replace state (change.apply (part state)).2) := rfl

@[simp] theorem apply_require (condition : Bool) (error : Error) (state : σ) :
    (require condition error : Mutation σ Unit).apply state =
      (if condition then .ok () else .error error, state) := by
  cases condition with
  | true => rfl
  | false => rfl

/-- A check is a change that changes nothing. -/
@[simp] theorem apply_check (check : Except Error α) (state : σ) :
    (liftM check : Mutation σ α).apply state = (check, state) := rfl

/-- What follows a check is done if the check passes. -/
theorem apply_bind_check (check : Except Error α) (next : α → Mutation σ β) (state : σ) :
    ((liftM check : Mutation σ α) >>= next).apply state =
      match check with
      | .ok value => (next value).apply state
      | .error error => (.error error, state) := by
  rw [apply_bind, apply_check]
  cases check with
  | ok value => rfl
  | error error => rfl

end Mutation

namespace Dictionary

variable {α : Type}

/-- A reading of a dictionary without damage changes nothing. -/
theorem note_of_undamaged (dictionary : Dictionary) {reading : Reading α}
    (sound : reading.damaged = false) : dictionary.note reading = (reading.value, dictionary) := by
  simp [note, sound]

@[simp] theorem apply_reading (reading : Reading α) (dictionary : Dictionary) :
    (liftM reading : Mutation Dictionary α).apply dictionary =
      (.ok reading.value, (dictionary.note reading).2) := rfl

/-- In the course of a change a reading without damage is just its value. -/
theorem apply_reading_pure (value : α) (dictionary : Dictionary) :
    (liftM (pure value : Reading α) : Mutation Dictionary α).apply dictionary =
      (.ok value, dictionary) := by
  rw [apply_reading, note_of_undamaged _ rfl]
  rfl

end Dictionary

end Lexicon

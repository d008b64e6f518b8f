/-
Module: Lexicon.Proofs.Preservation
Layer: Proofs
Purpose: Properties of a state that a change keeps whatever comes of it, properties of what it leaves
  behind where it is accepted, and such for both outcomes, by the parts of the change.
Imports: Lexicon.Proofs.Mutation
Trusted boundary: none
Main exports: Dictionary.walk_induction, Preserves, Preserves.bind, Preserves.bind_get,
  Preserves.forM, Preserves.forWords, Ensures, Ensures.bind, Ensures.forM, Meets, Meets.bind,
  Meets.forM, Ends, Ends.bind, Ends.forM
-/
import Lexicon.Proofs.Mutation

namespace Lexicon

variable {σ τ ε α β : Type} {holds : σ → Prop}

/-- Every token after the first leaves fewer terminals, so what holds of a token where it holds of the
next one holds of all of them. -/
@[elab_as_elim]
theorem Dictionary.walk_induction (dictionary : Dictionary) {motive : Nat → Prop}
    (step : ∀ token, ((dictionary.nextWord token).value.2 ≠ 0 →
      motive (dictionary.nextWord token).value.2) → motive token) (token : Nat) : motive token := by
  induction left : dictionary.content.terminals.size - token using Nat.strongRecOn
    generalizing token with
  | ind left ih =>
      refine step token fun onwards => ih _ ?_ _ rfl
      rcases dictionary.nextWord_token token with stop | later
      · exact absurd stop onwards
      · omega

/-- What holds of a state holds of what the change leaves behind, also when it is refused. -/
def Preserves (holds : σ → Prop) (change : ExceptT ε (StateM σ) α) : Prop :=
  ∀ state, holds state → holds (change.run.run state).2

namespace Preserves

theorem pure (value : α) : Preserves holds (Pure.pure value : ExceptT ε (StateM σ) α) :=
  fun _ => id

theorem throw (error : ε) : Preserves holds (MonadExcept.throw error : ExceptT ε (StateM σ) α) :=
  fun _ => id

theorem get : Preserves holds (MonadState.get : ExceptT ε (StateM σ) σ) := fun _ => id

theorem modify {change : σ → σ} (keeps : ∀ state, holds state → holds (change state)) :
    Preserves holds (modify change : ExceptT ε (StateM σ) Unit) := keeps

theorem bind {first : ExceptT ε (StateM σ) α} {next : α → ExceptT ε (StateM σ) β}
    (preserves : Preserves holds first) (rest : ∀ value, Preserves holds (next value)) :
    Preserves holds (first >>= next) := by
  intro state here
  have kept := preserves state here
  rw [ExceptT.run_bind, StateT.run_bind]
  generalize StateT.run (ExceptT.run first) state = outcome at kept
  obtain ⟨answer, after⟩ := outcome
  cases answer with
  | error error => exact kept
  | ok value => exact rest value after kept

/-- What follows may depend on the state that it starts from. -/
theorem bind_get {next : σ → ExceptT ε (StateM σ) β}
    (rest : ∀ state, holds state → holds ((next state).run.run state).2) :
    Preserves holds (MonadState.get >>= next) := rest

theorem ite {condition : Prop} [Decidable condition] {first second : ExceptT ε (StateM σ) α}
    (here : Preserves holds first) (there : Preserves holds second) :
    Preserves holds (if condition then first else second) := by
  split
  next => exact here
  next => exact there

theorem forM {items : List α} {visit : α → ExceptT ε (StateM σ) Unit}
    (each : ∀ item, Preserves holds (visit item)) : Preserves holds (items.forM visit) := by
  induction items with
  | nil => exact pure ()
  | cons item items ih => exact (each item).bind fun _ => ih

/-- A walk keeps what its readings and its visits keep. -/
theorem forWords [MonadLiftT Reading (ExceptT ε (StateM σ))] (dictionary : Dictionary)
    {visit : Word → ExceptT ε (StateM σ) Unit}
    (reads : ∀ reading : Reading (Word × Nat),
      Preserves holds (liftM reading : ExceptT ε (StateM σ) (Word × Nat)))
    (visits : ∀ word, Preserves holds (visit word)) (token : Nat) :
    Preserves holds (dictionary.forWords visit token) := by
  induction token using Dictionary.walk_induction dictionary with
  | step token ih =>
      rw [Dictionary.forWords]
      refine (reads _).bind fun outcome => ite (pure ()) ((visits _).bind fun _ => ?_)
      split
      next => exact pure ()
      next onwards => exact ih onwards

section Mutations

variable {part : σ → τ} {replace : σ → τ → σ}

/-- Checks change nothing. -/
theorem check (check : Except Error α) : Preserves holds (liftM check : Mutation σ α) :=
  fun _ => id

theorem require (condition : Bool) (error : Error) :
    Preserves holds (Mutation.require condition error : Mutation σ Unit) := by
  rw [Mutation.require]
  exact ite (pure ()) (throw error)

theorem onPart {change : Mutation τ α}
    (keeps : ∀ state, holds state → holds (replace state (change.apply (part state)).2)) :
    Preserves holds (Mutation.onPart part replace change) := keeps

end Mutations

end Preserves

/-! ### Both outcomes -/

/-- From a state of which something holds, a change is accepted, and something holds of the answer and
of what it leaves behind, or it is refused, and something holds of the error and of what it leaves
behind. -/
def Meets (holds : σ → Prop) (change : ExceptT ε (StateM σ) α) (gives : α → σ → Prop)
    (errs : ε → σ → Prop) : Prop :=
  ∀ state, holds state →
    match change.run.run state with
    | (.ok value, after) => gives value after
    | (.error error, after) => errs error after

namespace Meets

variable {gives : α → σ → Prop} {leads : β → σ → Prop} {errs : ε → σ → Prop}

theorem pure {value : α} (here : ∀ state, holds state → gives value state) :
    Meets holds (Pure.pure value : ExceptT ε (StateM σ) α) gives errs := here

theorem throw {error : ε} (here : ∀ state, holds state → errs error state) :
    Meets holds (MonadExcept.throw error : ExceptT ε (StateM σ) α) gives errs := here

theorem modify {change : σ → σ} {leads : Unit → σ → Prop}
    (here : ∀ state, holds state → leads () (change state)) :
    Meets holds (modify change : ExceptT ε (StateM σ) Unit) leads errs := here

theorem bind {first : ExceptT ε (StateM σ) α} {next : α → ExceptT ε (StateM σ) β}
    (meets : Meets holds first gives errs)
    (rest : ∀ value, Meets (gives value) (next value) leads errs) :
    Meets holds (first >>= next) leads errs := by
  intro state holding
  have between := meets state holding
  rw [ExceptT.run_bind, StateT.run_bind]
  generalize StateT.run (ExceptT.run first) state = outcome at between
  obtain ⟨answer, middle⟩ := outcome
  cases answer with
  | error error => exact between
  | ok given => exact rest given middle between

/-- Where only one answer can be given, what follows need only be known for that. -/
theorem bind_eq {first : ExceptT ε (StateM σ) α} {next : α → ExceptT ε (StateM σ) β} {value : α}
    {between : σ → Prop}
    (meets : Meets holds first (fun given after => given = value ∧ between after) errs)
    (rest : Meets between (next value) leads errs) : Meets holds (first >>= next) leads errs := by
  refine meets.bind fun given state holding => ?_
  obtain ⟨rfl, here⟩ := holding
  exact rest state here

/-- What follows starts from the state as it is. -/
theorem bind_get {next : σ → ExceptT ε (StateM σ) β}
    (rest : ∀ state, holds state → Meets (· = state) (next state) leads errs) :
    Meets holds (MonadState.get >>= next) leads errs :=
  fun state holding => rest state holding state rfl

/-- What follows may depend on the state that it starts from. -/
theorem get_bind {next : σ → ExceptT ε (StateM σ) β}
    (rest : ∀ state, holds state → Meets holds (next state) leads errs) :
    Meets holds (MonadState.get >>= next) leads errs :=
  fun state holding => rest state holding state holding

/-- What is known apart from the state may be used. -/
theorem given {fact : Prop} {change : ExceptT ε (StateM σ) α}
    (meets : fact → Meets holds change gives errs) :
    Meets (fun state => fact ∧ holds state) change gives errs :=
  fun state ⟨here, holding⟩ => meets here state holding

theorem ite {condition : Prop} [Decidable condition] {first second : ExceptT ε (StateM σ) α}
    (here : condition → Meets holds first gives errs)
    (there : ¬ condition → Meets holds second gives errs) :
    Meets holds (if condition then first else second) gives errs := by
  split
  next fulfilled => exact here fulfilled
  next otherwise => exact there otherwise

/-- Less may be asked of what is left behind. -/
theorem weaken {change : ExceptT ε (StateM σ) α} {further : α → σ → Prop} {also : ε → σ → Prop}
    (meets : Meets holds change gives errs)
    (less : ∀ value state, gives value state → further value state)
    (lessOnError : ∀ error state, errs error state → also error state) :
    Meets holds change further also := by
  intro state holding
  have outcome := meets state holding
  split at outcome
  next value after _ => exact less value after outcome
  next error after _ => exact lessOnError error after outcome

/-- Items are visited one after the other; `stage` is what holds when some of them were. -/
theorem forM (items : List α) {visit : α → ExceptT ε (StateM σ) Unit} (stage : List α → σ → Prop)
    (each : ∀ {done rest : List α} {item : α}, items = done ++ item :: rest →
      Meets (stage done) (visit item) (fun _ => stage (done ++ [item])) errs) :
    Meets (stage []) (items.forM visit) (fun _ => stage items) errs := by
  have further : ∀ {rest done : List α}, items = done ++ rest →
      Meets (stage done) (rest.forM visit) (fun _ => stage items) errs := by
    intro rest
    induction rest with
    | nil =>
        intro done split
        rw [List.append_nil] at split
        rw [split]
        exact pure fun _ holding => holding
    | cons item rest ih =>
        intro done split
        refine (each split).bind fun _ => ?_
        exact ih (split.trans (List.append_cons _ _ _))
  exact further (List.nil_append items).symm

/-- What is kept whatever comes of a change holds in both cases, if it does where the change starts. -/
theorem of_preserves {change : ExceptT ε (StateM σ) α} {start : σ → Prop}
    (preserves : Preserves holds change) (here : ∀ state, start state → holds state)
    (told : ∀ error state, holds state → errs error state) :
    Meets start change (fun _ => holds) errs := by
  intro state begins
  have kept := preserves state (here state begins)
  split
  next value after done =>
    rw [done] at kept
    exact kept
  next error after refused =>
    rw [refused] at kept
    exact told error after kept

/-- Of what is never refused any error may be told. -/
theorem of_accepted {change : ExceptT ε (StateM σ) α}
    (meets : Meets holds change gives fun _ _ => False) : Meets holds change gives errs :=
  meets.weaken (fun _ _ given => given) fun _ _ refused => refused.elim

section Mutations

variable {errs : Error → σ → Prop}

/-- What holds of the outcome that a change has. -/
theorem outcome {change : Mutation σ α} {state after : σ} {answer : Except Error α}
    (meets : Meets holds change gives errs) (holding : holds state)
    (done : change.apply state = (answer, after)) :
    (∀ value, answer = .ok value → gives value after) ∧
      ∀ error, answer = .error error → errs error after := by
  have both := meets state holding
  rw [show change.run.run state = (answer, after) from done] at both
  cases answer with
  | error error => exact ⟨nofun, fun _ told => Except.error.inj told ▸ both⟩
  | ok value => exact ⟨fun _ told => Except.ok.inj told ▸ both, nofun⟩

/-- What follows a check is done where the check is passed. -/
theorem check_bind {check : Except Error α} {next : α → Mutation σ β}
    (passed : ∀ value, check = .ok value → Meets holds (next value) leads errs)
    (failed : ∀ error, check = .error error → ∀ state, holds state → errs error state) :
    Meets holds ((liftM check : Mutation σ α) >>= next) leads errs := by
  cases checked : check with
  | error error => exact failed error checked
  | ok value => exact passed value checked

theorem require_bind {condition : Bool} {error : Error} {next : Unit → Mutation σ β}
    (fulfilled : condition = true → Meets holds (next ()) leads errs)
    (failed : condition = false → ∀ state, holds state → errs error state) :
    Meets holds (Mutation.require condition error >>= next) leads errs := by
  cases condition with
  | false => exact failed rfl
  | true => exact fulfilled rfl

theorem onPart {part : σ → τ} {replace : σ → τ → σ} {change : Mutation τ α}
    (both : ∀ state, holds state →
      match change.apply (part state) with
      | (.ok value, after) => gives value (replace state after)
      | (.error error, after) => errs error (replace state after)) :
    Meets holds (Mutation.onPart part replace change) gives errs := by
  intro state holding
  have outcome := both state holding
  have run : (Mutation.onPart part replace change).run.run state =
      ((change.apply (part state)).1, replace state (change.apply (part state)).2) := rfl
  rw [run]
  generalize change.apply (part state) = result at outcome
  obtain ⟨answer, after⟩ := result
  cases answer with
  | error error => exact outcome
  | ok value => exact outcome

end Mutations

end Meets

/-! ### Changes that are accepted -/

/-- Where a change is accepted on a state of which something holds, something holds of the answer and
of what it leaves behind. -/
def Ensures (holds : σ → Prop) (change : ExceptT ε (StateM σ) α) (gives : α → σ → Prop) : Prop :=
  ∀ state value after, holds state → change.run.run state = (.ok value, after) → gives value after

/-- That is not to ask for anything where the change is refused. -/
theorem ensures_iff {change : ExceptT ε (StateM σ) α} {gives : α → σ → Prop} :
    Ensures holds change gives ↔ Meets holds change gives fun _ _ => True := by
  constructor
  · intro ensures state holding
    split
    next value after done => exact ensures state value after holding done
    next => trivial
  · intro meets state value after holding done
    have outcome := meets state holding
    rw [done] at outcome
    exact outcome

namespace Ensures

variable {gives : α → σ → Prop} {leads : β → σ → Prop}

theorem pure {value : α} (here : ∀ state, holds state → gives value state) :
    Ensures holds (Pure.pure value : ExceptT ε (StateM σ) α) gives := by
  intro state _ _ holding done
  cases done
  exact here state holding

theorem throw (error : ε) :
    Ensures holds (MonadExcept.throw error : ExceptT ε (StateM σ) α) gives := by
  intro state _ _ _ done
  cases done

theorem modify {change : σ → σ} {leads : Unit → σ → Prop}
    (here : ∀ state, holds state → leads () (change state)) :
    Ensures holds (modify change : ExceptT ε (StateM σ) Unit) leads := by
  intro state _ _ holding done
  cases done
  exact here state holding

theorem bind {first : ExceptT ε (StateM σ) α} {next : α → ExceptT ε (StateM σ) β}
    (ensures : Ensures holds first gives) (rest : ∀ value, Ensures (gives value) (next value) leads) :
    Ensures holds (first >>= next) leads :=
  ensures_iff.mpr ((ensures_iff.mp ensures).bind fun value => ensures_iff.mp (rest value))

/-- What follows starts from the state as it is. -/
theorem bind_get {next : σ → ExceptT ε (StateM σ) β}
    (rest : ∀ state, holds state → Ensures (· = state) (next state) leads) :
    Ensures holds (MonadState.get >>= next) leads :=
  fun state value after holding done => rest state holding state value after rfl done

theorem ite {condition : Prop} [Decidable condition] {first second : ExceptT ε (StateM σ) α}
    (here : condition → Ensures holds first gives)
    (there : ¬ condition → Ensures holds second gives) :
    Ensures holds (if condition then first else second) gives :=
  ensures_iff.mpr (.ite (fun fulfilled => ensures_iff.mp (here fulfilled)) fun fails =>
    ensures_iff.mp (there fails))

/-- Where only one answer can be given, what follows need only be known for that. -/
theorem bind_eq {first : ExceptT ε (StateM σ) α} {next : α → ExceptT ε (StateM σ) β} {value : α}
    {between : σ → Prop}
    (ensures : Ensures holds first fun given after => given = value ∧ between after)
    (rest : Ensures between (next value) leads) : Ensures holds (first >>= next) leads :=
  ensures_iff.mpr ((ensures_iff.mp ensures).bind_eq (ensures_iff.mp rest))

/-- What is kept whatever comes of a change holds where it is accepted. -/
theorem of_preserves {change : ExceptT ε (StateM σ) α} (preserves : Preserves holds change) :
    Ensures holds change fun _ => holds := by
  intro state value after holding done
  have kept := preserves state holding
  rwa [done] at kept

/-- Items are visited one after the other; `stage` is what holds when some of them were. -/
theorem forM (items : List α) {visit : α → ExceptT ε (StateM σ) Unit} (stage : List α → σ → Prop)
    (each : ∀ {done rest : List α} {item : α}, items = done ++ item :: rest →
      Ensures (stage done) (visit item) fun _ => stage (done ++ [item])) :
    Ensures (stage []) (items.forM visit) fun _ => stage items :=
  ensures_iff.mpr (.forM items stage fun split => ensures_iff.mp (each split))

end Ensures

/-! ### Both outcomes, whatever the error is -/

/-- From a state of which something holds, a change is accepted, and something holds of the answer and
of what it leaves behind, or it is refused, and something else holds of what it leaves behind. -/
def Ends (holds : σ → Prop) (change : ExceptT ε (StateM σ) α) (gives : α → σ → Prop)
    (fails : σ → Prop) : Prop :=
  ∀ state, holds state →
    match change.run.run state with
    | (.ok value, after) => gives value after
    | (.error _, after) => fails after

/-- That is not to ask for anything of the error. -/
theorem ends_iff {change : ExceptT ε (StateM σ) α} {gives : α → σ → Prop} {fails : σ → Prop} :
    Ends holds change gives fails ↔ Meets holds change gives fun _ => fails := Iff.rfl

namespace Ends

variable {gives : α → σ → Prop} {leads : β → σ → Prop} {fails : σ → Prop}

theorem pure {value : α} (here : ∀ state, holds state → gives value state) :
    Ends holds (Pure.pure value : ExceptT ε (StateM σ) α) gives fails := here

theorem throw {error : ε} (here : ∀ state, holds state → fails state) :
    Ends holds (MonadExcept.throw error : ExceptT ε (StateM σ) α) gives fails := here

theorem modify {change : σ → σ} {leads : Unit → σ → Prop}
    (here : ∀ state, holds state → leads () (change state)) :
    Ends holds (modify change : ExceptT ε (StateM σ) Unit) leads fails := here

theorem bind {first : ExceptT ε (StateM σ) α} {next : α → ExceptT ε (StateM σ) β}
    (ends : Ends holds first gives fails)
    (rest : ∀ value, Ends (gives value) (next value) leads fails) :
    Ends holds (first >>= next) leads fails :=
  ends_iff.mpr ((ends_iff.mp ends).bind fun value => ends_iff.mp (rest value))

/-- Where only one answer can be given, what follows need only be known for that. -/
theorem bind_eq {first : ExceptT ε (StateM σ) α} {next : α → ExceptT ε (StateM σ) β} {value : α}
    {between : σ → Prop}
    (ends : Ends holds first (fun given after => given = value ∧ between after) fails)
    (rest : Ends between (next value) leads fails) : Ends holds (first >>= next) leads fails :=
  ends_iff.mpr ((ends_iff.mp ends).bind_eq (ends_iff.mp rest))

/-- What follows starts from the state as it is. -/
theorem bind_get {next : σ → ExceptT ε (StateM σ) β}
    (rest : ∀ state, holds state → Ends (· = state) (next state) leads fails) :
    Ends holds (MonadState.get >>= next) leads fails :=
  fun state holding => rest state holding state rfl

theorem ite {condition : Prop} [Decidable condition] {first second : ExceptT ε (StateM σ) α}
    (here : condition → Ends holds first gives fails)
    (there : ¬ condition → Ends holds second gives fails) :
    Ends holds (if condition then first else second) gives fails :=
  ends_iff.mpr (.ite (fun fulfilled => ends_iff.mp (here fulfilled)) fun otherwise =>
    ends_iff.mp (there otherwise))

/-- Less may be asked of what is left behind where a change is accepted. -/
theorem weaken {change : ExceptT ε (StateM σ) α} {further : α → σ → Prop}
    (ends : Ends holds change gives fails)
    (less : ∀ value state, gives value state → further value state) :
    Ends holds change further fails :=
  ends_iff.mpr ((ends_iff.mp ends).weaken less fun _ _ failed => failed)

/-- Items are visited one after the other; `stage` is what holds when some of them were. -/
theorem forM (items : List α) {visit : α → ExceptT ε (StateM σ) Unit} (stage : List α → σ → Prop)
    (each : ∀ {done rest : List α} {item : α}, items = done ++ item :: rest →
      Ends (stage done) (visit item) (fun _ => stage (done ++ [item])) fails) :
    Ends (stage []) (items.forM visit) (fun _ => stage items) fails :=
  ends_iff.mpr (.forM items stage fun split => ends_iff.mp (each split))

end Ends

end Lexicon

/-
Module: Lexicon.Mutation
Layer: Domain
Purpose: Changes that may be refused, with the state that they leave behind in either case.
Imports: Lexicon.Error
Trusted boundary: none
Main exports: Mutation, Mutation.apply, Mutation.ofChange, Mutation.onPart
-/
import Lexicon.Error

namespace Lexicon

/-- A change of a state that answers or is refused.  The state that it leaves behind is part of the
outcome also when it is refused: that a refused change leaves everything as it was is a fact about
each operation and not an effect of the type. -/
abbrev Mutation (σ α : Type) := ExceptT Error (StateM σ) α

namespace Mutation

/-- Makes the change on a state. -/
def apply {σ α : Type} (change : Mutation σ α) (state : σ) : Except Error α × σ :=
  change.run.run state

/-- A change given by what it does to each state. -/
def ofChange {σ α : Type} (change : σ → Except Error α × σ) : Mutation σ α := change

/-- A change of a part of a state. -/
def onPart {σ τ α : Type} (part : σ → τ) (replace : σ → τ → σ) (change : Mutation τ α) :
    Mutation σ α :=
  ofChange fun state =>
    let (answer, next) := change.apply (part state)
    (answer, replace state next)

/-- Refuses to go on unless a condition holds. -/
def require {σ : Type} (condition : Bool) (error : Error) : Mutation σ Unit :=
  if condition then pure () else throw error

end Mutation

end Lexicon

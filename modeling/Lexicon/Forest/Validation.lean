/-
Module: Lexicon.Forest.Validation
Layer: Forest
Purpose: The checks that slots from outside have to pass before they are used as a forest.
Imports: Lexicon.Forest.Basic
Trusted boundary: none
Main exports: Forest.checkSlots, Forest.checkReachable, Survey.weight
-/
import Lexicon.Forest.Basic

namespace Lexicon

/-!
Slots that were read from bytes may say anything.  First each slot is checked by itself: references
have to stay inside the arena and values have to fit.  Then the tables are walked from the root: no
slot may be reached twice, no node with children may stand below the last level, and every entry has
to stand under the labels of its key.  What is not reached from the root is not checked further.
-/

namespace Forest

/-- The checks on a single slot among others. -/
def checkSlot (slots : Array Slot) (index : Nat) : Slot → Except FormatFault Unit
  | .entry _ value nested =>
      if value > maxValue then
        .error (.valueTooWide index)
      else
        match nested with
        | none => .ok ()
        | some table =>
            if table < slots.size && !(slots.getD table Slot.empty).isEntry then
              .ok ()
            else
              .error (.badNestedTable index table)
  | .node labels run spare =>
      if spare ≥ Slot.entryMark || (labels.size > 0 && run + labels.size > slots.size) then
        .error (.runOutOfBounds index)
      else
        .ok ()

/-- The checks on each slot by itself, in order: the first slot has to be a table, and no slot may
refer outside. -/
def checkSlots (slots : Array Slot) : Except FormatFault Unit :=
  if (slots.getD 0 Slot.empty).isEntry then
    .error .rootNotATable
  else
    slots.toList.zipIdx.forM fun (slot, index) => checkSlot slots index slot

end Forest

/-- A node whose children have still to be looked at: its slot, its level, and the number whose
lowest digits are the labels on the way to it. -/
structure Visit where
  slot : Nat
  level : Nat
  path : Nat
deriving DecidableEq, Repr

/-- A walk through the tables: which slots have been reached, and the nodes still to be visited, the
next one first. -/
structure Survey where
  reached : Array Bool
  pending : List Visit
deriving Repr

namespace Survey

/-- The walk before its first step: only the root table has been reached. -/
def start (size : Nat) : Survey :=
  { reached := (Array.replicate size false).setIfInBounds 0 true
    pending := [{ slot := 0, level := 0, path := 0 }] }

/-- The number of slots not yet reached and of nodes still to be visited.  Every step of the walk
makes it smaller. -/
def weight (survey : Survey) : Nat :=
  survey.reached.count false + survey.pending.length

/-- Notes that a slot has been reached, which may happen once. -/
def reach (survey : Survey) (slot : Nat) : Except FormatFault Survey :=
  if survey.reached.getD slot true then
    .error (.reachedTwice slot)
  else
    .ok { survey with reached := survey.reached.setIfInBounds slot true }

/-- Adds a node to those to be visited. -/
def push (survey : Survey) (visit : Visit) : Survey :=
  { survey with pending := visit :: survey.pending }

/-- Looks at one child of the node being visited.  A node is visited later; an entry has to agree
with the labels that lead to it in all the digits used so far, and its nested table is visited
later. -/
def child (slots : Array Slot) (parent : Visit) (survey : Survey) (label : Label) (index : Nat) :
    Except FormatFault Survey := do
  let path := parent.path + label.val * Label.weight parent.level
  let survey ← survey.reach index
  match slots.getD index Slot.empty with
  | .node .. => pure (survey.push { slot := index, level := parent.level + 1, path := path })
  | .entry key _ nested =>
      if key.toUInt32.toNat % Label.weight (parent.level + 1) ≠ path then
        .error (.misfiledKey index)
      else
        match nested with
        | none => pure survey
        | some table =>
            let survey ← survey.reach table
            pure (survey.push { slot := table, level := 0, path := 0 })

/-- Looks at the children under the given labels, which stand side by side. -/
def children (slots : Array Slot) (parent : Visit) :
    (labels : List Label) → (index : Nat) → Survey → Except FormatFault Survey
  | [], _, survey => .ok survey
  | label :: labels, index, survey => do
      let survey ← child slots parent survey label index
      children slots parent labels (index + 1) survey

/-- Visits a node: looks at all its children, unless it is too deep to have any. -/
def visit (slots : Array Slot) (node : Visit) (survey : Survey) : Except FormatFault Survey :=
  match slots.getD node.slot Slot.empty with
  | .entry .. => .ok survey
  | .node labels run _ =>
      if labels.size = 0 then
        .ok survey
      else if node.level ≥ levels then
        .error (.nodeTooDeep node.slot)
      else
        children slots node labels.toList run survey

/-! ### The walk ends -/

theorem weight_push (survey : Survey) (node : Visit) :
    (survey.push node).weight = survey.weight + 1 := by
  simp [push, weight]
  omega

/-- Reaching a slot leaves one slot less to be reached. -/
theorem weight_reach {survey next : Survey} {slot : Nat} (reached : survey.reach slot = .ok next) :
    next.weight + 1 = survey.weight := by
  unfold reach at reached
  split at reached
  next => cases reached
  next unseen =>
    cases reached
    have inside : slot < survey.reached.size := by
      apply Classical.byContradiction
      intro outside
      exact unseen (by simp [Array.getD, outside])
    have fresh : survey.reached[slot] = false := by
      simpa [Array.getD, inside] using unseen
    have some : 0 < survey.reached.count false :=
      Array.count_pos_iff.mpr (fresh ▸ Array.getElem_mem inside)
    simp only [weight, Array.setIfInBounds, inside, dif_pos]
    rw [Array.count_set]
    simp [fresh]
    omega

theorem weight_child {slots : Array Slot} {parent : Visit} {survey next : Survey} {label : Label}
    {index : Nat} (looked : child slots parent survey label index = .ok next) :
    next.weight ≤ survey.weight := by
  simp only [child, bind, Except.bind] at looked
  cases first : survey.reach index with
  | error fault => simp [first] at looked
  | ok marked =>
      have lighter := weight_reach first
      simp only [first] at looked
      split at looked
      next =>
        cases looked
        rw [weight_push]
        omega
      next key value nested isEntry =>
        split at looked
        next => cases looked
        next =>
          split at looked
          next =>
            cases looked
            omega
          next table =>
            cases second : marked.reach table with
            | error fault => simp [second] at looked
            | ok again =>
                have lighterStill := weight_reach second
                simp only [second] at looked
                cases looked
                rw [weight_push]
                omega

theorem weight_children {slots : Array Slot} {parent : Visit} {survey next : Survey}
    {labels : List Label} {index : Nat}
    (looked : children slots parent labels index survey = .ok next) :
    next.weight ≤ survey.weight := by
  induction labels generalizing index survey with
  | nil =>
      cases looked
      exact Nat.le_refl _
  | cons label labels ih =>
      simp only [children, bind, Except.bind] at looked
      cases first : child slots parent survey label index with
      | error fault => simp [first] at looked
      | ok marked =>
          simp only [first] at looked
          exact Nat.le_trans (ih looked) (weight_child first)

theorem weight_visit {slots : Array Slot} {node : Visit} {survey next : Survey}
    (visited : visit slots node survey = .ok next) : next.weight ≤ survey.weight := by
  unfold visit at visited
  split at visited
  next =>
    cases visited
    exact Nat.le_refl _
  next =>
    split at visited
    next =>
      cases visited
      exact Nat.le_refl _
    next =>
      split at visited
      next => cases visited
      next => exact weight_children visited

set_option linter.unusedVariables false in
/-- Visits pending nodes, the latest first, until none is left. -/
def finish (slots : Array Slot) (survey : Survey) : Except FormatFault Unit :=
  match waiting : survey.pending with
  | [] => .ok ()
  | node :: others =>
      match visited : visit slots node { survey with pending := others } with
      | .error fault => .error fault
      | .ok next => finish slots next
termination_by survey.weight
decreasing_by
  have lighter := weight_visit visited
  simp only [weight] at lighter ⊢
  rw [waiting, List.length_cons]
  omega

end Survey

namespace Forest

/-- Whether the tables that the root leads to are trees: every slot has one way to it, every entry
stands where its key belongs, and no node with children is below the last level. -/
def checkReachable (slots : Array Slot) : Except FormatFault Unit :=
  (Survey.start slots.size).finish slots

end Forest

end Lexicon

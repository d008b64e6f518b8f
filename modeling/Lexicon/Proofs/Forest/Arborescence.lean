/-
Module: Lexicon.Proofs.Forest.Arborescence
Layer: Proofs
Purpose: What the walk through the tables of slots from outside accepts, told by the graph that it
  walks through, and that it ends.
Imports: Lexicon.Proofs.Forest.Acceptance, Mathlib.Data.Set.Finite.Basic
Trusted boundary: none
Main exports: Slot.along, Forest.Located, Forest.Arborescent, Forest.Bounded, Survey.Ends,
  Survey.finish_eq_ok_iff, Forest.checkReachable_exact
-/
import Lexicon.Proofs.Forest.Acceptance
import Mathlib.Data.Set.Finite.Basic

namespace Lexicon

/-!
The slots of an arena are the points of a graph: from a node there is a way to each of its children, one
under each label, and from an entry with a nested table there is one to that table.  Below the root
everything that can be reached has a place, which says how deep it is in its table and which digits
lead to it.  The walk accepts the slots when no two ways lead to the same slot, none leads back to the
root, and what is found fits its place.

The walk itself is told by the list of the nodes that it visits.  Such a list says all that the answer
depends on: each node on it is either pending at first or comes from another one on the list, and what
comes from them was not reached before.
-/

/-! ### The graph -/

/-- The kinds of ways from a slot: to the child under a label, or to the nested table. -/
inductive Way where
  | under (label : Label)
  | nested
deriving DecidableEq, Repr

/-- The slot to which a way leads, if there is such a way. -/
def Slot.along : Slot → Way → Option Nat
  | .node labels run _, .under label =>
      if labels.contains label then some (run + labels.rank label.val) else none
  | .entry _ _ nested, .nested => nested
  | _, _ => none

/-- The place of what a way leads to.  Under a label it is one level deeper, and one digit longer is the
path to it; a nested table begins anew. -/
def Visit.on (place : Visit) (way : Way) (index : Nat) : Visit :=
  match way with
  | .under label => ⟨index, place.level + 1, place.path + label.val * Label.weight place.level⟩
  | .nested => ⟨index, 0, 0⟩

@[simp] theorem Visit.slot_on (place : Visit) (way : Way) (index : Nat) :
    (place.on way index).slot = index := by
  cases way <;> rfl

namespace Forest

variable {slots : Array Slot}

/-- The slot at a place, and an unused one outside. -/
def slotAt (slots : Array Slot) (index : Nat) : Slot := slots.getD index Slot.empty

/-- The places of everything that the root leads to. -/
inductive Located (slots : Array Slot) : Visit → Prop where
  | top : Located slots ⟨0, 0, 0⟩
  | step {place : Visit} {way : Way} {index : Nat} (located : Located slots place)
      (leads : (slotAt slots place.slot).along way = some index) : Located slots (place.on way index)

/-- The tables that the root leads to are trees.  No slot is reached along two different ways, and the
root along none; no node with children is below the last level; and the key of an entry agrees in all
the digits used so far with the labels on the way to it. -/
structure Arborescent (slots : Array Slot) : Prop where
  sole : ∀ {first second : Visit} {way other : Way} {index : Nat},
    Located slots first → Located slots second →
    (slotAt slots first.slot).along way = some index →
    (slotAt slots second.slot).along other = some index → first.slot = second.slot ∧ way = other
  rootless : ∀ {place : Visit} {way : Way}, Located slots place →
    (slotAt slots place.slot).along way ≠ some 0
  shallow : ∀ {place : Visit}, Located slots place → (slotAt slots place.slot).labels.size ≠ 0 →
    place.level < levels
  filed : ∀ {place : Visit} {key : Int32} {value : Nat} {nested : Option Nat}, Located slots place →
    slotAt slots place.slot = .entry key value nested →
    key.toUInt32.toNat % Label.weight place.level = place.path

/-- References stay inside: the root is a node, runs with children in them are not cut off, and
nested tables begin with a node. -/
structure Bounded (slots : Array Slot) : Prop where
  filled : slots.size ≠ 0
  top : (slotAt slots 0).isEntry = false
  runs : ∀ {index run spare : Nat} {labels : LabelSet},
    slotAt slots index = .node labels run spare → labels.size ≠ 0 → run + labels.size ≤ slots.size
  tables : ∀ {index value table : Nat} {key : Int32},
    slotAt slots index = .entry key value (some table) →
    table < slots.size ∧ (slotAt slots table).isEntry = false

/-- The checks on each slot by itself see to that. -/
theorem bounded_of_checkSlots (filled : slots.size ≠ 0) (checked : checkSlots slots = .ok ()) :
    Bounded slots := by
  have each : checkSlots (Arena.ofSlots slots).slots = .ok () := checked
  refine ⟨filled, (checkSlot_of_checkSlots each).1, ?_,
    fun here => (entry_of_checkSlots each here).2 _ rfl⟩
  intro index run spare labels here children
  by_cases inside : index < slots.size
  · have passed := (checkSlot_of_checkSlots each).2 index inside
    rw [show (Arena.ofSlots slots).slot index = .node labels run spare from here] at passed
    change (if _ then _ else _) = _ at passed
    split at passed
    next => cases passed
    next good =>
      simp only [ge_iff_le, Bool.or_eq_true, Bool.and_eq_true, decide_eq_true_eq, not_or, not_and,
        not_lt] at good
      exact good.2 (Nat.pos_of_ne_zero children)
  · rw [slotAt, Array.getD_eq_getD_getElem?, Array.getElem?_eq_none (Nat.le_of_not_lt inside)] at here
    cases here
    exact absurd rfl children

/-! ### Places -/

/-- Only entries have something nested, and that begins with a node. -/
theorem Bounded.isEntry_nested (bounded : Bounded slots) {index table : Nat}
    (leads : (slotAt slots index).along .nested = some table) :
    (slotAt slots table).isEntry = false := by
  cases here : slotAt slots index with
  | node labels run spare =>
      rw [here] at leads
      cases leads
  | entry key value nested =>
      rw [here] at leads
      change nested = some table at leads
      subst leads
      exact (bounded.tables here).2

/-- What a way leads to stands inside. -/
theorem Bounded.lt_size (bounded : Bounded slots) {index target : Nat} {way : Way}
    (leads : (slotAt slots index).along way = some target) : target < slots.size := by
  cases here : slotAt slots index with
  | node labels run spare =>
      cases way with
      | under label =>
          rw [here, Slot.along] at leads
          split at leads
          next member =>
            cases leads
            have place := LabelSet.rank_lt_size member
            have inside := bounded.runs here (Nat.ne_zero_of_lt place)
            omega
          next => cases leads
      | nested =>
          rw [here] at leads
          cases leads
  | entry key value nested =>
      cases way with
      | under label =>
          rw [here] at leads
          cases leads
      | nested =>
          rw [here] at leads
          change nested = some target at leads
          subst leads
          exact (bounded.tables here).1

/-- Everything that is reached is inside. -/
theorem Located.lt_size (bounded : Bounded slots) {place : Visit} (located : Located slots place) :
    place.slot < slots.size := by
  cases located with
  | top => exact Nat.pos_of_ne_zero bounded.filled
  | step _ leads =>
      rw [Visit.slot_on]
      exact bounded.lt_size leads

/-- In trees a slot has only one place.  The induction is on how the first of two places is reached; the
last way to both is the same, so they come from the same place. -/
theorem Arborescent.eq_of_slot (trees : Arborescent slots) {first second : Visit}
    (located : Located slots first) (again : Located slots second) (same : first.slot = second.slot) :
    first = second := by
  induction located generalizing second with
  | top =>
      cases again with
      | top => rfl
      | step before leads =>
          rw [Visit.slot_on] at same
          exact absurd (same ▸ leads) (trees.rootless before)
  | step before leads ih =>
      rw [Visit.slot_on] at same
      subst same
      cases again with
      | top => exact absurd leads (trees.rootless before)
      | step behind leadsAgain =>
          rw [Visit.slot_on] at leads ⊢
          obtain ⟨source, rfl⟩ := trees.sole before behind leads leadsAgain
          rw [ih behind source]

end Forest

/-! ### The ways from a node -/

/-- A way of the graph: the slot that it comes from, its kind, and the place that it leads to. -/
@[ext]
structure Arc where
  source : Nat
  way : Way
  target : Visit
deriving DecidableEq, Repr

namespace Survey

open Forest (slotAt)

variable {slots : Array Slot} {parent : Visit} {label : Label} {index : Nat}
  {survey middle reached next : Survey}

/-- The ways that are taken when a child is looked at: the one to it and, from an entry, the one to its
nested table. -/
def arcsAt (slots : Array Slot) (parent : Visit) (label : Label) (index : Nat) : List Arc :=
  ⟨parent.slot, .under label, parent.on (.under label) index⟩ ::
    match (slotAt slots index).along .nested with
    | none => []
    | some table => [⟨index, .nested, ⟨table, 0, 0⟩⟩]

/-- The ways that are taken when a node is visited. -/
def arcs (slots : Array Slot) (node : Visit) : List Arc :=
  let slot := slotAt slots node.slot
  slot.labels.toList.flatMap fun label => arcsAt slots node label (slot.child label)

theorem arcsAt_node {labels : LabelSet} {run spare : Nat}
    (here : slotAt slots index = .node labels run spare) :
    arcsAt slots parent label index =
      [⟨parent.slot, .under label, parent.on (.under label) index⟩] := by
  rw [arcsAt, here]
  rfl

theorem arcsAt_entry {key : Int32} {value : Nat} (here : slotAt slots index = .entry key value none) :
    arcsAt slots parent label index =
      [⟨parent.slot, .under label, parent.on (.under label) index⟩] := by
  rw [arcsAt, here, Slot.along]

theorem arcsAt_table {key : Int32} {value table : Nat}
    (here : slotAt slots index = .entry key value (some table)) :
    arcsAt slots parent label index =
      [⟨parent.slot, .under label, parent.on (.under label) index⟩] ++
        [⟨index, .nested, ⟨table, 0, 0⟩⟩] := by
  rw [arcsAt, here, Slot.along]
  rfl

variable {ways more : List Arc} {arc : Arc}

/-- How many of some ways lead to a slot. -/
def tally (ways : List Arc) (index : Nat) : Nat := (ways.map fun arc => arc.target.slot).count index

@[simp] theorem tally_nil (index : Nat) : tally [] index = 0 := rfl

theorem tally_cons (arc : Arc) (ways : List Arc) (index : Nat) :
    tally (arc :: ways) index = covers arc.target.slot 1 index + tally ways index := by
  rw [tally, List.map_cons, List.count_cons, ← tally, Nat.add_comm]
  congr 1
  simp only [covers, beq_iff_eq]
  split <;> split <;> omega

theorem tally_singleton (arc : Arc) (index : Nat) :
    tally [arc] index = covers arc.target.slot 1 index := by
  rw [tally_cons, tally_nil, Nat.add_zero]

theorem tally_append (ways more : List Arc) (index : Nat) :
    tally (ways ++ more) index = tally ways index + tally more index := by
  rw [tally, List.map_append, List.count_append, ← tally, ← tally]

theorem tally_perm (same : ways.Perm more) (index : Nat) : tally ways index = tally more index :=
  (same.map _).count_eq index

/-- An entry at a place has a key with the digits that lead there. -/
def Fitting (slots : Array Slot) (place : Visit) : Prop :=
  ∀ (key : Int32) (value : Nat) (nested : Option Nat),
    slotAt slots place.slot = .entry key value nested →
      key.toUInt32.toNat % Label.weight place.level = place.path

theorem fitting_of_node {place : Visit} (node : (slotAt slots place.slot).isEntry = false) :
    Fitting slots place := by
  intro key value nested here
  rw [here] at node
  cases node

/-- The nodes to which some ways lead. -/
def offspring (slots : Array Slot) (ways : List Arc) : List Visit :=
  (ways.map Arc.target).filter fun place => !(slotAt slots place.slot).isEntry

theorem offspring_append (ways more : List Arc) :
    offspring slots (ways ++ more) = offspring slots ways ++ offspring slots more := by
  rw [offspring, List.map_append, List.filter_append, ← offspring, ← offspring]

theorem isEntry_of_mem_offspring {place : Visit} (among : place ∈ offspring slots ways) :
    (slotAt slots place.slot).isEntry = false := by
  simpa using (List.mem_filter.mp among).2

/-- Some ways can be taken: what they lead to was not reached before and fits its place. -/
structure Free (slots : Array Slot) (ways : List Arc) (survey : Survey) : Prop where
  fitting : ∀ arc ∈ ways, Fitting slots arc.target
  fresh : ∀ index, survey.seen index + tally ways index ≤ 1

/-- Some ways have been taken: what they lead to fits its place and has been reached now, and the nodes
among it are pending. -/
structure Took (slots : Array Slot) (ways : List Arc) (survey next : Survey) : Prop where
  fitting : ∀ arc ∈ ways, Fitting slots arc.target
  seen : ∀ index, next.seen index = survey.seen index + tally ways index
  pending : next.pending.Perm (offspring slots ways ++ survey.pending)

theorem Took.nothing (slots : Array Slot) (survey : Survey) : Took slots [] survey survey :=
  ⟨nofun, fun _ => rfl, .refl _⟩

theorem Took.append (first : Took slots ways survey middle) (second : Took slots more middle next) :
    Took slots (ways ++ more) survey next := by
  refine ⟨?_, ?_, ?_⟩
  · intro arc among
    exact (List.mem_append.mp among).elim (first.fitting arc) (second.fitting arc)
  · intro index
    rw [second.seen, first.seen, tally_append, Nat.add_assoc]
  · refine second.pending.trans ?_
    refine (List.Perm.append_left _ first.pending).trans ?_
    rw [offspring_append, ← List.append_assoc]
    exact List.Perm.append_right _ List.perm_append_comm

theorem Free.left (free : Free slots (ways ++ more) survey) : Free slots ways survey := by
  refine ⟨fun arc among => free.fitting arc (List.mem_append_left more among), fun index => ?_⟩
  have fresh := free.fresh index
  rw [tally_append] at fresh
  omega

theorem Free.right (free : Free slots (ways ++ more) survey)
    (took : Took slots ways survey middle) : Free slots more middle := by
  refine ⟨fun arc among => free.fitting arc (List.mem_append_right ways among), fun index => ?_⟩
  have fresh := free.fresh index
  rw [tally_append] at fresh
  rw [took.seen]
  omega

/-- A way to a node was taken when its slot has been reached and it has become pending. -/
theorem Took.node (arc : Arc) (done : survey.reach arc.target.slot = .ok reached)
    (node : (slotAt slots arc.target.slot).isEntry = false) :
    Took slots [arc] survey (reached.push arc.target) := by
  obtain ⟨_, pending, seen⟩ := reach_eq_ok done
  refine ⟨?_, fun other => ?_, ?_⟩
  · intro other among
    cases List.mem_singleton.mp among
    exact fitting_of_node node
  · rw [tally_singleton]
    exact seen other
  · rw [push, pending, offspring, List.map_singleton, List.filter_cons_of_pos (by rw [node]; rfl)]
    exact .refl _

/-- A way to an entry was taken when its slot has been reached. -/
theorem Took.entry (arc : Arc) (done : survey.reach arc.target.slot = .ok reached)
    (entry : (slotAt slots arc.target.slot).isEntry = true) (fitting : Fitting slots arc.target) :
    Took slots [arc] survey reached := by
  obtain ⟨_, pending, seen⟩ := reach_eq_ok done
  refine ⟨?_, fun other => ?_, ?_⟩
  · intro other among
    cases List.mem_singleton.mp among
    exact fitting
  · rw [tally_singleton]
    exact seen other
  · rw [pending, offspring, List.map_singleton, List.filter_cons_of_neg (by simp [entry])]
    exact .refl _

/-- A way that is free can be taken. -/
theorem Free.exists_reach (free : Free slots (arc :: ways) survey) :
    ∃ reached, survey.reach arc.target.slot = .ok reached := by
  have fresh := free.fresh arc.target.slot
  rw [tally_cons, covers_self] at fresh
  have unseen : survey.reached.getD arc.target.slot true = false := by
    have zero : survey.seen arc.target.slot = 0 := by omega
    simpa [seen] using zero
  exact ⟨_, by rw [reach, unseen, if_neg Bool.false_ne_true]⟩

/-! ### The steps of the walk -/

/-- When a child was looked at, its ways were taken. -/
theorem took_child (nodal : Nodal (slotAt slots))
    (done : child slots parent survey label index = .ok next) :
    Took slots (arcsAt slots parent label index) survey next := by
  -- The way to an entry that is filed where it stands.
  have took : ∀ {reached : Survey} {key : Int32} {value : Nat} {nested : Option Nat},
      survey.reach index = .ok reached → slotAt slots index = .entry key value nested →
      key.toUInt32.toNat % Label.weight (parent.level + 1) =
        parent.path + label.val * Label.weight parent.level →
      Took slots [⟨parent.slot, .under label, parent.on (.under label) index⟩] survey reached := by
    intro reached key value nested first here filed
    refine .entry _ first (by rw [Visit.slot_on, here]; rfl) ?_
    intro other stored below entry
    rw [Visit.slot_on, here] at entry
    cases entry
    exact filed
  cases looks_of_child done with
  | node first here =>
      rw [arcsAt_node here]
      exact .node ⟨parent.slot, .under label, parent.on (.under label) index⟩ first
        (by rw [Visit.slot_on, show slotAt slots index = _ from here]; rfl)
  | entry first here filed =>
      rw [arcsAt_entry here]
      exact took first here filed
  | @table _ _ _ _ table first here filed second =>
      rw [arcsAt_table here]
      exact (took first here filed).append (.node ⟨index, .nested, ⟨table, 0, 0⟩⟩ second (nodal here))

/-- A child whose ways are free is looked at without complaint. -/
theorem exists_child (free : Free slots (arcsAt slots parent label index) survey) :
    ∃ next, child slots parent survey label index = .ok next := by
  obtain ⟨reached, first⟩ := Free.exists_reach free
  rw [Visit.slot_on] at first
  cases here : slotAt slots index with
  | node labels run spare => exact ⟨_, (Looks.node first here).child_eq⟩
  | entry key value nested =>
      have filed : key.toUInt32.toNat % Label.weight (parent.level + 1) =
          parent.path + label.val * Label.weight parent.level :=
        free.fitting _ List.mem_cons_self key value nested
          ((congrArg (slotAt slots) (Visit.slot_on _ _ _)).trans here)
      cases nested with
      | none => exact ⟨_, (Looks.entry first here filed).child_eq⟩
      | some table =>
          rw [arcsAt_table here] at free
          have entry : (slotAt slots (parent.on (.under label) index).slot).isEntry = true := by
            rw [Visit.slot_on, here]
            rfl
          have took : Took slots [⟨parent.slot, .under label, parent.on (.under label) index⟩] survey
              reached :=
            .entry _ (by rw [Visit.slot_on]; exact first) entry
              (free.fitting _ (List.mem_append_left _ List.mem_cons_self))
          obtain ⟨again, second⟩ := (free.right took).exists_reach
          exact ⟨_, (Looks.table first here filed second).child_eq⟩

/-- When children that stand side by side were looked at, their ways were taken.  The induction is on
the labels that are left. -/
theorem took_children (nodal : Nodal (slotAt slots)) {place : Label → Nat} (labels : List Label) :
    ∀ {index : Nat} {survey : Survey}, labels.map place = List.range' index labels.length →
      children slots parent labels index survey = .ok next →
      Took slots (labels.flatMap fun label => arcsAt slots parent label (place label)) survey
        next := by
  induction labels with
  | nil =>
      intro index survey _ done
      cases done
      exact .nothing slots _
  | cons label labels ih =>
      intro index survey places done
      rw [List.map_cons, List.length_cons, List.range'_succ, List.cons.injEq] at places
      obtain ⟨rfl, behind⟩ := places
      obtain ⟨middle, first, done⟩ := exists_of_bind done
      exact (took_child nodal first).append (ih behind done)

theorem exists_children (nodal : Nodal (slotAt slots)) {place : Label → Nat} (labels : List Label) :
    ∀ {index : Nat} {survey : Survey}, labels.map place = List.range' index labels.length →
      Free slots (labels.flatMap fun label => arcsAt slots parent label (place label)) survey →
      ∃ next, children slots parent labels index survey = .ok next := by
  induction labels with
  | nil =>
      intro _ survey _ _
      exact ⟨survey, rfl⟩
  | cons label labels ih =>
      intro index survey places free
      rw [List.map_cons, List.length_cons, List.range'_succ, List.cons.injEq] at places
      obtain ⟨rfl, behind⟩ := places
      obtain ⟨middle, first⟩ := exists_child free.left
      obtain ⟨next, rest⟩ := ih behind (free.right (took_child nodal first))
      refine ⟨next, ?_⟩
      simp only [children, bind, Except.bind, first, rest]

/-- A node is above the last level if it has children. -/
def Shallow (slots : Array Slot) (node : Visit) : Prop :=
  (slotAt slots node.slot).labels.size ≠ 0 → node.level < levels

/-- When a node was visited, its ways were taken. -/
theorem took_visit (nodal : Nodal (slotAt slots)) {node : Visit}
    (isNode : (slotAt slots node.slot).isEntry = false) (done : visit slots node survey = .ok next) :
    Shallow slots node ∧ Took slots (arcs slots node) survey next := by
  have content : slots.getD node.slot Slot.empty = slotAt slots node.slot := rfl
  cases here : slotAt slots node.slot with
  | entry key value nested =>
      rw [here] at isNode
      cases isNode
  | node labels run spare =>
      rw [Shallow, arcs, here]
      simp only [visit, content, here] at done
      split at done
      next empty =>
        cases done
        have none : labels.toList = [] :=
          List.eq_nil_of_length_eq_zero (labels.length_toList.trans empty)
        refine ⟨fun some => absurd empty some, ?_⟩
        simp only [Slot.labels, none, List.flatMap_nil]
        exact .nothing slots survey
      next =>
        split at done
        next => cases done
        next shallow =>
          exact ⟨fun _ => Nat.lt_of_not_le shallow,
            took_children nodal labels.toList (labels.map_place_toList run) done⟩

/-- A node whose ways are free is visited without complaint. -/
theorem exists_visit (nodal : Nodal (slotAt slots)) {node : Visit} (shallow : Shallow slots node)
    (free : Free slots (arcs slots node) survey) : ∃ next, visit slots node survey = .ok next := by
  have content : slots.getD node.slot Slot.empty = slotAt slots node.slot := rfl
  rw [visit, content]
  cases here : slotAt slots node.slot with
  | entry => exact ⟨_, rfl⟩
  | node labels run spare =>
      dsimp only
      split
      next => exact ⟨_, rfl⟩
      next some =>
        rw [Shallow, here] at shallow
        rw [arcs, here] at free
        rw [if_neg (Nat.not_le_of_lt (shallow some))]
        exact exists_children nodal labels.toList (labels.map_place_toList run) free

/-! ### The walk as a whole -/

/-- The walk ends after some rounds with an answer: when nothing is pending, or when a visit finds
something wrong. -/
inductive Ends (slots : Array Slot) : Nat → Survey → Except FormatFault Unit → Prop where
  | done {survey : Survey} (waiting : survey.pending = []) : Ends slots 0 survey (.ok ())
  | failed {survey : Survey} {node : Visit} {others : List Visit} {fault : FormatFault}
      (waiting : survey.pending = node :: others)
      (visited : visit slots node { survey with pending := others } = .error fault) :
      Ends slots 1 survey (.error fault)
  | round {survey next : Survey} {node : Visit} {others : List Visit} {rounds : Nat}
      {answer : Except FormatFault Unit} (waiting : survey.pending = node :: others)
      (visited : visit slots node { survey with pending := others } = .ok next)
      (ends : Ends slots rounds next answer) : Ends slots (rounds + 1) survey answer

/-- It ends with its answer, at the latest when as many rounds have passed as there were slots not
reached and nodes pending. -/
theorem exists_ends (slots : Array Slot) (survey : Survey) :
    ∃ rounds ≤ survey.weight, Ends slots rounds survey (survey.finish slots) := by
  rw [finish]
  split
  next waiting => exact ⟨0, Nat.zero_le _, .done waiting⟩
  next node others waiting =>
    have heavy : survey.weight = survey.reached.count false + others.length + 1 := by
      rw [weight, waiting, List.length_cons, Nat.add_assoc]
    split
    next fault failed => exact ⟨1, by omega, .failed waiting failed⟩
    next next visited =>
      have lighter : next.weight ≤ survey.reached.count false + others.length :=
        weight_visit visited
      have fewer : next.weight < survey.weight := by omega
      obtain ⟨rounds, few, ends⟩ := exists_ends slots next
      exact ⟨rounds + 1, by omega, .round waiting visited ends⟩
termination_by survey.weight

/-- The nodes that a walk visits: each one is pending or comes from another one, they are above the last
level if they have children, and the ways from them are free. -/
structure Tour (slots : Array Slot) (survey : Survey) (visited : List Visit) : Prop where
  origin : visited.Perm (survey.pending ++ offspring slots (visited.flatMap (arcs slots)))
  shallow : ∀ node ∈ visited, Shallow slots node
  free : Free slots (visited.flatMap (arcs slots)) survey

theorem Took.ready (took : Took slots ways survey next) (ready : survey.Ready (slotAt slots)) :
    next.Ready (slotAt slots) := by
  intro place among
  rcases List.mem_append.mp (took.pending.mem_iff.mp among) with new | old
  · exact isEntry_of_mem_offspring new
  · exact ready place old

/-- The first node that is visited comes before those that are visited after it. -/
theorem Tour.cons {node : Visit} {others visited : List Visit}
    (waiting : survey.pending = node :: others) (shallow : Shallow slots node)
    (took : Took slots (arcs slots node) { survey with pending := others } next)
    (tour : Tour slots next visited) : Tour slots survey (node :: visited) := by
  refine ⟨?_, List.forall_mem_cons.mpr ⟨shallow, tour.shallow⟩, ?_, ?_⟩
  · rw [waiting, List.cons_append, List.perm_cons, List.flatMap_cons, offspring_append,
      ← List.append_assoc]
    refine tour.origin.trans (List.Perm.append_right _ ?_)
    exact took.pending.trans List.perm_append_comm
  · rw [List.flatMap_cons]
    intro arc among
    exact (List.mem_append.mp among).elim (took.fitting arc) (tour.free.fitting arc)
  · intro index
    have fresh := tour.free.fresh index
    have seen : next.seen index = survey.seen index + tally (arcs slots node) index :=
      took.seen index
    rw [List.flatMap_cons, tally_append]
    omega

/-- A node that is pending is among those that are visited, and the others are visited after it. -/
theorem Tour.uncons {node : Visit} {others visited : List Visit}
    (waiting : survey.pending = node :: others) (tour : Tour slots survey visited) :
    Shallow slots node ∧ Free slots (arcs slots node) { survey with pending := others } ∧
      ∀ {next : Survey}, Took slots (arcs slots node) { survey with pending := others } next →
        ∃ rest, Tour slots next rest := by
  have member : node ∈ visited := by
    rw [tour.origin.mem_iff, waiting]
    exact List.mem_cons_self
  have same := List.perm_cons_erase member
  set rest := visited.erase node
  have ways : (visited.flatMap (arcs slots)).Perm (arcs slots node ++ rest.flatMap (arcs slots)) := by
    rw [← List.flatMap_cons]
    exact same.flatMap_right _
  have free : Free slots (arcs slots node ++ rest.flatMap (arcs slots))
      { survey with pending := others } := by
    refine ⟨fun arc among => tour.free.fitting arc (ways.mem_iff.mpr among), fun index => ?_⟩
    rw [← tally_perm ways]
    exact tour.free.fresh index
  refine ⟨tour.shallow node member, free.left, fun {next} took => ⟨rest, ?_, ?_, free.right took⟩⟩
  · have origin := same.symm.trans tour.origin
    rw [waiting, List.cons_append, List.perm_cons] at origin
    refine origin.trans ?_
    have more : (offspring slots (visited.flatMap (arcs slots))).Perm
        (offspring slots (arcs slots node) ++ offspring slots (rest.flatMap (arcs slots))) := by
      rw [← offspring_append]
      exact (ways.map _).filter _
    refine (List.Perm.append_left _ more).trans ?_
    rw [← List.append_assoc]
    refine List.Perm.append_right _ ?_
    exact List.perm_append_comm.trans took.pending.symm
  · exact fun other among => tour.shallow other (same.mem_iff.mpr (List.mem_cons_of_mem node among))

/-- A walk that ends without complaint has visited some nodes. -/
theorem Ends.exists_tour (nodal : Nodal (slotAt slots)) {rounds : Nat}
    {answer : Except FormatFault Unit} (ends : Ends slots rounds survey answer)
    (ready : survey.Ready (slotAt slots)) (accepted : answer = .ok ()) :
    ∃ visited, Tour slots survey visited := by
  induction ends with
  | @done survey waiting =>
      refine ⟨[], by rw [waiting]; exact .refl _, nofun, nofun, fun index => ?_⟩
      exact Bool.toNat_le (survey.reached.getD index true)
  | failed => cases accepted
  | round waiting visited ends ih =>
      have first := ready
      rw [Ready, waiting, List.forall_mem_cons] at first
      obtain ⟨shallow, took⟩ := took_visit nodal first.1 visited
      obtain ⟨rest, tour⟩ := ih (took.ready first.2) accepted
      exact ⟨_, tour.cons waiting shallow took⟩

/-- A walk that can visit some nodes ends without complaint. -/
theorem Ends.accepts (nodal : Nodal (slotAt slots)) {rounds : Nat}
    {answer : Except FormatFault Unit} (ends : Ends slots rounds survey answer)
    (ready : survey.Ready (slotAt slots)) {visited : List Visit} (tour : Tour slots survey visited) :
    answer = .ok () := by
  induction ends generalizing visited with
  | done => rfl
  | failed waiting failed =>
      obtain ⟨shallow, free, _⟩ := tour.uncons waiting
      obtain ⟨next, done⟩ := exists_visit nodal shallow free
      rw [done] at failed
      cases failed
  | round waiting done ends ih =>
      have first := ready
      rw [Ready, waiting, List.forall_mem_cons] at first
      obtain ⟨_, _, rest⟩ := tour.uncons waiting
      obtain ⟨_, took⟩ := took_visit nodal first.1 done
      obtain ⟨others, after⟩ := rest took
      exact ih (took.ready first.2) after

/-- The walk finds nothing wrong when there are nodes for it to visit. -/
theorem finish_eq_ok_iff (nodal : Nodal (slotAt slots)) (ready : survey.Ready (slotAt slots)) :
    survey.finish slots = .ok () ↔ ∃ visited, Tour slots survey visited := by
  obtain ⟨rounds, _, ends⟩ := exists_ends slots survey
  exact ⟨ends.exists_tour nodal ready, fun ⟨_, tour⟩ => ends.accepts nodal ready tour⟩

end Survey

/-! ### The walk and the graph -/

/-- Under its labels a slot leads to its children. -/
theorem Slot.along_under_iff {slot : Slot} {label : Label} {index : Nat} :
    slot.along (.under label) = some index ↔
      slot.labels.contains label = true ∧ slot.child label = index := by
  cases slot with
  | node labels run spare => simp [Slot.along, Slot.labels, Slot.child, Slot.run]
  | entry => simp [Slot.along, Slot.labels]

namespace Forest

open Survey

variable {slots : Array Slot} {node place : Visit} {arc : Arc} {visited : List Visit}

theorem mem_arcsAt_iff {label : Label} {index : Nat} : arc ∈ arcsAt slots node label index ↔
    arc = ⟨node.slot, .under label, node.on (.under label) index⟩ ∨
      ∃ table, (slotAt slots index).along .nested = some table ∧
        arc = ⟨index, .nested, ⟨table, 0, 0⟩⟩ := by
  rw [arcsAt, List.mem_cons]
  refine or_congr Iff.rfl ?_
  cases (slotAt slots index).along .nested with
  | none => simp
  | some table => simp

/-- From a node ways lead to its children, and from those of them that are entries on to their nested
tables. -/
theorem mem_arcs_iff : arc ∈ arcs slots node ↔ ∃ label index,
    (slotAt slots node.slot).along (.under label) = some index ∧
      (arc = ⟨node.slot, .under label, node.on (.under label) index⟩ ∨
        ∃ table, (slotAt slots index).along .nested = some table ∧
          arc = ⟨index, .nested, ⟨table, 0, 0⟩⟩) := by
  simp only [arcs, List.mem_flatMap, LabelSet.mem_toList, Slot.along_under_iff, mem_arcsAt_iff]
  constructor
  · rintro ⟨label, member, among⟩
    exact ⟨label, _, ⟨member, rfl⟩, among⟩
  · rintro ⟨label, _, ⟨member, rfl⟩, among⟩
    exact ⟨label, member, among⟩

/-- A way from a node is a way of the graph between two places. -/
theorem Located.of_mem_arcs (located : Located slots node) (among : arc ∈ arcs slots node) :
    ∃ source, Located slots source ∧ source.slot = arc.source ∧
      (slotAt slots source.slot).along arc.way = some arc.target.slot ∧
      arc.target = source.on arc.way arc.target.slot := by
  obtain ⟨label, index, leads, rfl | ⟨table, here, rfl⟩⟩ := mem_arcs_iff.mp among
  · exact ⟨node, located, rfl, by rw [Visit.slot_on, leads], by rw [Visit.slot_on]⟩
  · exact ⟨_, located.step leads, Visit.slot_on _ _ _, by rw [Visit.slot_on]; exact here, rfl⟩

/-- Whatever way there is from a node is one of its ways. -/
theorem mem_arcs_of_along (isNode : (slotAt slots node.slot).isEntry = false) {way : Way}
    {index : Nat} (leads : (slotAt slots node.slot).along way = some index) :
    ⟨node.slot, way, node.on way index⟩ ∈ arcs slots node := by
  cases way with
  | under label => exact mem_arcs_iff.mpr ⟨label, index, leads, .inl rfl⟩
  | nested =>
      cases here : slotAt slots node.slot <;> rw [here] at isNode leads
      · cases leads
      · cases isNode

/-- The way to the table that is nested below a child of a node is one of the node's ways, too. -/
theorem mem_arcs_nested (bounded : Bounded slots) {way : Way} {index further : Nat}
    (among : ⟨place.slot, way, place.on way index⟩ ∈ arcs slots node)
    (entry : (slotAt slots index).isEntry = true)
    (onward : (slotAt slots index).along .nested = some further) :
    ⟨index, .nested, ⟨further, 0, 0⟩⟩ ∈ arcs slots node := by
  obtain ⟨label, child, first, same | ⟨table, nested, same⟩⟩ := mem_arcs_iff.mp among
  · have target := congrArg (fun arc : Arc => arc.target.slot) same
    simp only [Visit.slot_on] at target
    subst target
    exact mem_arcs_iff.mpr ⟨label, index, first, .inr ⟨further, onward, rfl⟩⟩
  · have target := congrArg (fun arc : Arc => arc.target.slot) same
    simp only [Visit.slot_on] at target
    subst target
    rw [bounded.isEntry_nested nested] at entry
    cases entry

/-- If the root is known, and every node to which a way leads from a known one, then so is every node
that has a place; and every way between places is one from a known node. -/
theorem Located.known (bounded : Bounded slots) (known : Visit → Prop) (top : known ⟨0, 0, 0⟩)
    (closed : ∀ {node : Visit} {arc : Arc}, known node → arc ∈ arcs slots node →
      (slotAt slots arc.target.slot).isEntry = false → known arc.target)
    (located : Located slots place) :
    ((slotAt slots place.slot).isEntry = false → known place) ∧
      ∀ {way index}, (slotAt slots place.slot).along way = some index →
        ∃ node, known node ∧ ⟨place.slot, way, place.on way index⟩ ∈ arcs slots node := by
  induction located with
  | top => exact ⟨fun _ => top, fun leads => ⟨_, top, mem_arcs_of_along bounded.top leads⟩⟩
  | @step place way index located leads ih =>
      obtain ⟨node, isKnown, among⟩ := ih.2 leads
      cases here : (slotAt slots index).isEntry with
      | false =>
          have isNode : (slotAt slots (place.on way index).slot).isEntry = false := by
            rw [Visit.slot_on, here]
          have reached : known (place.on way index) := closed isKnown among isNode
          exact ⟨fun _ => reached, fun leads => ⟨_, reached, mem_arcs_of_along isNode leads⟩⟩
      | true =>
          -- An entry is not visited itself: what leads on from it is a way of the node above it.
          rw [Visit.slot_on]
          refine ⟨fun isNode => absurd (here.symm.trans isNode) Bool.true_eq_false.mp, ?_⟩
          intro next further onward
          cases next with
          | under label =>
              cases entry : slotAt slots index <;> rw [entry] at here onward
              · cases here
              · cases onward
          | nested => exact ⟨node, isKnown, mem_arcs_nested bounded among here onward⟩

/-! ### What is visited is a forest -/

theorem Bounded.nodal (bounded : Bounded slots) : Nodal (slotAt slots) :=
  fun here => (bounded.tables here).2

theorem Bounded.ready (bounded : Bounded slots) :
    (Survey.start slots.size).Ready (slotAt slots) := by
  intro place among
  rw [List.mem_singleton.mp among]
  exact bounded.top

/-- A walk from the root visits every node that has a place, and takes every way between places. -/
theorem known_of_tour (bounded : Bounded slots) (tour : Tour slots (.start slots.size) visited)
    (located : Located slots place) :
    ((slotAt slots place.slot).isEntry = false → place ∈ visited) ∧
      ∀ {way index}, (slotAt slots place.slot).along way = some index →
        ⟨place.slot, way, place.on way index⟩ ∈ visited.flatMap (arcs slots) := by
  have top : (⟨0, 0, 0⟩ : Visit) ∈ visited := tour.origin.mem_iff.mpr List.mem_cons_self
  have closed : ∀ {node : Visit} {arc : Arc}, node ∈ visited → arc ∈ arcs slots node →
      (slotAt slots arc.target.slot).isEntry = false → arc.target ∈ visited := by
    intro node arc among leads isNode
    refine tour.origin.mem_iff.mpr (List.mem_append_right _ (List.mem_filter.mpr ⟨?_, ?_⟩))
    · exact List.mem_map_of_mem (List.mem_flatMap.mpr ⟨node, among, leads⟩)
    · rw [isNode]
      rfl
  obtain ⟨nodes, ways⟩ := located.known bounded (· ∈ visited) top closed
  refine ⟨nodes, fun leads => ?_⟩
  obtain ⟨node, among, arc⟩ := ways leads
  exact List.mem_flatMap.mpr ⟨node, among, arc⟩

/-- A walk takes no two ways to the same slot. -/
theorem nodup_slots_of_tour (tour : Tour slots (.start slots.size) visited) :
    ((visited.flatMap (arcs slots)).map fun arc => arc.target.slot).Nodup := by
  refine List.nodup_iff_count_le_one.mpr fun index => ?_
  have fresh := tour.free.fresh index
  rw [tally] at fresh
  omega

/-- Where a walk from the root can visit some nodes, the tables are trees. -/
theorem arborescent_of_tour (bounded : Bounded slots)
    (tour : Tour slots (.start slots.size) visited) : Arborescent slots := by
  have ways : ∀ {place : Visit} {way : Way} {index : Nat}, Located slots place →
      (slotAt slots place.slot).along way = some index →
        ⟨place.slot, way, place.on way index⟩ ∈ visited.flatMap (arcs slots) :=
    fun located leads => (known_of_tour bounded tour located).2 leads
  refine ⟨?_, ?_, ?_, ?_⟩
  · intro first second way other index located again leads leadsAgain
    have same := List.inj_on_of_nodup_map (nodup_slots_of_tour tour) (ways located leads)
      (ways again leadsAgain) (by simp only [Visit.slot_on])
    exact ⟨congrArg Arc.source same, congrArg Arc.way same⟩
  · intro place way located leads
    have counted : 0 < tally (visited.flatMap (arcs slots)) 0 := by
      refine List.count_pos_iff.mpr (List.mem_map.mpr ⟨_, ways located leads, ?_⟩)
      exact Visit.slot_on _ _ _
    have fresh := tour.free.fresh 0
    rw [seen_start, if_pos (.inl rfl)] at fresh
    omega
  · intro place located children
    refine tour.shallow place ((known_of_tour bounded tour located).1 ?_) children
    cases here : slotAt slots place.slot with
    | node => rfl
    | entry =>
        rw [here] at children
        exact absurd (by decide : LabelSet.empty.size = 0) children
  · intro place key value nested located here
    cases located with
    | top =>
        have node := bounded.top
        rw [here] at node
        cases node
    | step before leads =>
        exact tour.free.fitting _ (ways before leads) key value nested here

/-! ### A forest can be visited -/

/-- In trees a way is taken only from one node, and when one of its children is looked at. -/
theorem Arborescent.eq_of_mem_arcsAt (trees : Arborescent slots) {first second : Visit}
    {label other : Label} {index further : Nat} (located : Located slots first)
    (again : Located slots second)
    (leads : (slotAt slots first.slot).along (.under label) = some index)
    (leadsAgain : (slotAt slots second.slot).along (.under other) = some further)
    (one : arc ∈ arcsAt slots first label index) (two : arc ∈ arcsAt slots second other further) :
    first = second ∧ label = other := by
  rcases mem_arcsAt_iff.mp one with rfl | ⟨table, _, rfl⟩ <;>
    rcases mem_arcsAt_iff.mp two with same | ⟨table, _, same⟩
  · exact ⟨trees.eq_of_slot located again (congrArg Arc.source same),
      Way.under.inj (congrArg Arc.way same)⟩
  · cases congrArg Arc.way same
  · cases congrArg Arc.way same
  · have source : index = further := congrArg Arc.source same
    obtain ⟨parent, way⟩ := trees.sole located again leads (source ▸ leadsAgain)
    exact ⟨trees.eq_of_slot located again parent, Way.under.inj way⟩

/-- A list of the nodes that have a place, each once. -/
structure Census (slots : Array Slot) (nodes : List Visit) : Prop where
  distinct : nodes.Nodup
  whole : ∀ node, node ∈ nodes ↔ Located slots node ∧ (slotAt slots node.slot).isEntry = false

/-- There are finitely many nodes in trees, since each has its own slot. -/
theorem Arborescent.exists_census (trees : Arborescent slots) (bounded : Bounded slots) :
    ∃ nodes, Census slots nodes := by
  have finite : {node | Located slots node ∧ (slotAt slots node.slot).isEntry = false}.Finite := by
    refine Set.Finite.of_injOn (f := Visit.slot) (t := {index | index < slots.size}) ?_ ?_
      (Set.finite_lt_nat _)
    · intro node ⟨located, _⟩
      exact located.lt_size bounded
    · intro first ⟨located, _⟩ second ⟨again, _⟩ same
      exact trees.eq_of_slot located again same
  exact ⟨finite.toFinset.toList, Finset.nodup_toList _, fun node => by
    rw [Finset.mem_toList, Set.Finite.mem_toFinset, Set.mem_ofPred_eq]⟩

namespace Census

variable {nodes : List Visit}

theorem located (census : Census slots nodes) (among : node ∈ nodes) : Located slots node :=
  ((census.whole node).mp among).1

/-- A way from one of the nodes is a way of the graph between two places. -/
theorem leads (census : Census slots nodes) (among : arc ∈ nodes.flatMap (arcs slots)) :
    ∃ source, Located slots source ∧ source.slot = arc.source ∧
      (slotAt slots source.slot).along arc.way = some arc.target.slot ∧
      arc.target = source.on arc.way arc.target.slot := by
  obtain ⟨node, member, taken⟩ := List.mem_flatMap.mp among
  exact (census.located member).of_mem_arcs taken

theorem reached (census : Census slots nodes) (among : arc ∈ nodes.flatMap (arcs slots)) :
    Located slots arc.target := by
  obtain ⟨source, here, _, way, target⟩ := census.leads among
  rw [target]
  exact here.step way

/-- No way is taken twice from the nodes of trees. -/
theorem nodup_arcs (census : Census slots nodes) (trees : Arborescent slots) :
    (nodes.flatMap (arcs slots)).Nodup := by
  have under : ∀ {node : Visit} {label : Label}, label ∈ (slotAt slots node.slot).labels.toList →
      (slotAt slots node.slot).along (.under label) =
        some ((slotAt slots node.slot).child label) :=
    fun member => Slot.along_under_iff.mpr ⟨LabelSet.mem_toList.mp member, rfl⟩
  refine List.nodup_flatMap.mpr ⟨fun node among => ?_, ?_⟩
  · refine List.nodup_flatMap.mpr ⟨fun label _ => ?_, ?_⟩
    · rw [arcsAt]
      split
      next => exact List.nodup_singleton _
      next => simp
    · refine (LabelSet.nodup_toList _).imp_of_mem fun first second differ arc one two => differ ?_
      exact (trees.eq_of_mem_arcsAt (census.located among) (census.located among) (under first)
        (under second) one two).2
  · refine census.distinct.imp_of_mem fun first second differ arc one two => differ ?_
    obtain ⟨label, member, one⟩ := List.mem_flatMap.mp one
    obtain ⟨other, memberAgain, two⟩ := List.mem_flatMap.mp two
    exact (trees.eq_of_mem_arcsAt (census.located first) (census.located second) (under member)
      (under memberAgain) one two).1

/-- No two ways from the nodes of trees lead to the same slot. -/
theorem nodup_targets (census : Census slots nodes) (trees : Arborescent slots) :
    ((nodes.flatMap (arcs slots)).map fun arc => arc.target.slot).Nodup := by
  refine List.Nodup.map_on ?_ (census.nodup_arcs trees)
  intro first one second two same
  obtain ⟨place, here, source, way, _⟩ := census.leads one
  obtain ⟨further, there, sourceAgain, wayAgain, _⟩ := census.leads two
  obtain ⟨slot, ways⟩ := trees.sole here there way (same ▸ wayAgain)
  exact Arc.ext (source.symm.trans (slot.trans sourceAgain)) ways
    (trees.eq_of_slot (census.reached one) (census.reached two) same)

/-- The nodes are the root and those to which ways from nodes lead. -/
theorem origin (census : Census slots nodes) (trees : Arborescent slots) (bounded : Bounded slots) :
    nodes.Perm (⟨0, 0, 0⟩ :: offspring slots (nodes.flatMap (arcs slots))) := by
  have targets : (offspring slots (nodes.flatMap (arcs slots))).Nodup := by
    refine List.Nodup.filter _ (List.Nodup.of_map Visit.slot ?_)
    rw [List.map_map]
    exact census.nodup_targets trees
  have fresh : (⟨0, 0, 0⟩ : Visit) ∉ offspring slots (nodes.flatMap (arcs slots)) := by
    intro among
    obtain ⟨arc, member, same⟩ := List.mem_map.mp (List.mem_filter.mp among).1
    obtain ⟨source, here, _, way, _⟩ := census.leads member
    rw [same] at way
    exact trees.rootless here way
  refine (List.perm_ext_iff_of_nodup census.distinct (List.nodup_cons.mpr ⟨fresh, targets⟩)).mpr
    fun place => ?_
  rw [census.whole, List.mem_cons]
  constructor
  · rintro ⟨here, isNode⟩
    cases here with
    | top => exact .inl rfl
    | step before way =>
        obtain ⟨_, ways⟩ := before.known bounded (· ∈ nodes)
          ((census.whole _).mpr ⟨.top, bounded.top⟩) fun {node arc} among taken isNode =>
            (census.whole _).mpr
              ⟨census.reached (List.mem_flatMap.mpr ⟨node, among, taken⟩), isNode⟩
        obtain ⟨node, among, taken⟩ := ways way
        refine .inr (List.mem_filter.mpr ⟨?_, by rw [isNode]; rfl⟩)
        exact List.mem_map_of_mem (List.mem_flatMap.mpr ⟨node, among, taken⟩)
  · rintro (rfl | among)
    · exact ⟨.top, bounded.top⟩
    · obtain ⟨arc, member, rfl⟩ := List.mem_map.mp (List.mem_filter.mp among).1
      exact ⟨census.reached member, isEntry_of_mem_offspring among⟩

/-- Where the tables are trees, a walk from the root can visit their nodes. -/
theorem tour (census : Census slots nodes) (trees : Arborescent slots) (bounded : Bounded slots) :
    Tour slots (.start slots.size) nodes := by
  refine ⟨census.origin trees bounded, fun node among => trees.shallow (census.located among),
    fun arc among key value nested here => trees.filed (census.reached among) here,
    fun index => ?_⟩
  rw [seen_start]
  split
  next outside =>
    have none : tally (nodes.flatMap (arcs slots)) index = 0 := by
      refine List.count_eq_zero.mpr fun among => ?_
      obtain ⟨arc, member, rfl⟩ := List.mem_map.mp among
      obtain ⟨source, here, _, way, _⟩ := census.leads member
      rcases outside with zero | beyond
      · rw [zero] at way
        exact trees.rootless here way
      · exact absurd (bounded.lt_size way) (Nat.not_lt_of_le beyond)
    omega
  next =>
    rw [Nat.zero_add]
    exact List.nodup_iff_count_le_one.mp (census.nodup_targets trees) index

end Census

/-! ### The walk is exact -/

/-- The weight of a walk that begins is the number of slots. -/
theorem weight_start (filled : slots.size ≠ 0) : (Survey.start slots.size).weight = slots.size := by
  have inside : 0 < (Array.replicate slots.size false).size := by
    rw [Array.size_replicate]
    exact Nat.pos_of_ne_zero filled
  have rest : (Survey.start slots.size).weight =
      ((Array.replicate slots.size false).setIfInBounds 0 true).count false + 1 := rfl
  rw [rest, Array.setIfInBounds, dif_pos inside, Array.count_set]
  simp
  omega

/-- The walk through the tables is exact, and it ends.  Let references stay inside.  After no more
rounds than there are slots the walk ends with its answer.  It finds nothing wrong just when no slot is
reached along two different ways and the root along none, no node with children is below the last
level, and every entry stands where its key belongs; and then each slot that is reached has one level
and one path. -/
theorem checkReachable_exact (bounded : Bounded slots) :
    (∃ rounds ≤ slots.size, Ends slots rounds (.start slots.size) (checkReachable slots)) ∧
      (checkReachable slots = .ok () ↔ Arborescent slots) ∧
      (checkReachable slots = .ok () → ∀ {first second : Visit}, Located slots first →
        Located slots second → first.slot = second.slot → first = second) := by
  have accepts : checkReachable slots = .ok () ↔ Arborescent slots := by
    rw [checkReachable, finish_eq_ok_iff bounded.nodal bounded.ready]
    constructor
    · rintro ⟨visited, tour⟩
      exact arborescent_of_tour bounded tour
    · intro trees
      obtain ⟨nodes, census⟩ := trees.exists_census bounded
      exact ⟨nodes, census.tour trees bounded⟩
  refine ⟨?_, accepts, fun accepted first second => (accepts.mp accepted).eq_of_slot⟩
  obtain ⟨rounds, few, ends⟩ := exists_ends slots (.start slots.size)
  rw [weight_start bounded.filled] at few
  exact ⟨rounds, few, ends⟩

/-- Below the root an entry with a nested table, and a node with another entry. -/
def upright : Array Slot :=
  #[.node ((LabelSet.singleton 0).insert 1) 1 0, .entry 32 5 (some 3),
    .node (LabelSet.singleton 0) 4 0, Slot.empty, .entry 1 7 none]

/-- The same with the node as the nested table, so that two ways lead to it. -/
def tangled : Array Slot :=
  #[.node ((LabelSet.singleton 0).insert 1) 1 0, .entry 32 5 (some 2),
    .node (LabelSet.singleton 0) 4 0, Slot.empty, .entry 1 7 none]

/-- In both references stay inside, and the walk tells them apart. -/
theorem checkReachable_exact_tangled :
    Bounded upright ∧ Arborescent upright ∧ Bounded tangled ∧ ¬ Arborescent tangled := by
  have straight : Bounded upright := bounded_of_checkSlots (by decide) (by decide +kernel)
  have crooked : Bounded tangled := bounded_of_checkSlots (by decide) (by decide +kernel)
  have accepted : checkReachable upright = .ok () := by decide +kernel
  have refused : checkReachable tangled ≠ .ok () := by decide +kernel
  exact ⟨straight, (checkReachable_exact straight).2.1.mp accepted, crooked,
    fun trees => refused ((checkReachable_exact crooked).2.1.mpr trees)⟩

end Forest

end Lexicon

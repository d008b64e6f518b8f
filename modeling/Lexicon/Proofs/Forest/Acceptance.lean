/-
Module: Lexicon.Proofs.Forest.Acceptance
Layer: Proofs
Purpose: Slots from outside that pass the checks hold tables that stand apart from each other, each
  but the root below one key.
Imports: Lexicon.Proofs.Forest.Storage, Lexicon.Proofs.Forest.Survey
Trusted boundary: none
Main exports: Tree.ofSlot, Survey.Settled, Forest.Standing.coherent, Forest.coherent_of_checks,
  Forest.takes_read_ofSlots, Forest.Readable, Forest.yields_readable, Forest.yields_read
-/
import Lexicon.Proofs.Forest.Storage
import Lexicon.Proofs.Forest.Survey

namespace Lexicon

/-!
The walk through the tables knows nothing of trees: it only notes which slots were reached.  That
what it accepts is a forest is shown backwards, from its end.  There nothing is left to be reached;
and whatever a step reaches, it reaches for the first time, so that it can be added to what the steps
after it have reached.  Nodes without children may be found below the last level, since the walk does
not look at the depth of such nodes.
-/

/-- A sum over the members of a set. -/
theorem LabelSet.sum_toList (labels : LabelSet) (count : Label → Nat) :
    (labels.toList.map count).sum =
      ∑ label, if labels.contains label then count label else 0 := by
  rw [← List.sum_toFinset _ labels.nodup_toList, ← Finset.sum_filter]
  congr 1
  ext label
  simp [LabelSet.mem_toList]

/-! ### What stands at a slot -/

namespace Tree

/-- The tree that is found at a slot when the labels are followed while levels are left. -/
def ofSlot (slot : Nat → Slot) : (remaining index : Nat) → Tree
  | remaining, index =>
      match slot index with
      | .entry key value nested => .entry key value nested
      | .node labels run _ =>
          match remaining with
          | 0 => .node labels run fun _ => .absent
          | remaining + 1 => .node labels run fun label =>
              if labels.contains label then ofSlot slot remaining (run + labels.rank label.val)
              else .absent

/-- A tree stands at a slot and is filed there, but for empty nodes below the last level. -/
structure Sits (slot : Nat → Slot) (tree : Tree) (level path index : Nat) : Prop where
  held : tree.Holds slot index
  filed : tree.Filed True level path

variable {slot : Nat → Slot} {remaining index : Nat} {labels : LabelSet} {run spare : Nat}

theorem isNode_ofSlot (node : (slot index).isEntry = false) :
    (ofSlot slot remaining index).isNode = true := by
  unfold ofSlot
  split
  next key value nested here =>
    rw [here] at node
    cases node
  next => split <;> rfl

theorem present_ofSlot : (ofSlot slot remaining index).present = true := by
  unfold ofSlot
  split
  next => rfl
  next => split <;> rfl

theorem ofSlot_entry {key : Int32} {value : Nat} {nested : Option Nat}
    (here : slot index = .entry key value nested) :
    ofSlot slot remaining index = .entry key value nested := by
  unfold ofSlot
  rw [here]

/-- Below a node without labels there is nothing. -/
theorem ofSlot_empty (here : slot index = .node labels run spare) (empty : labels.size = 0) :
    ofSlot slot remaining index = .node labels run fun _ => .absent := by
  unfold ofSlot
  rw [here]
  cases remaining with
  | zero => rfl
  | succ remaining =>
      have none : ∀ label, labels.contains label = false := LabelSet.size_eq_zero empty
      simp [none]

theorem ofSlot_node (remaining : Nat) (here : slot index = .node labels run spare) :
    ofSlot slot (remaining + 1) index = .node labels run fun label =>
      if labels.contains label then ofSlot slot remaining (run + labels.rank label.val)
      else .absent := by
  rw [ofSlot, here]

/-- A node without labels stands wherever it is found. -/
theorem Sits.empty {level path : Nat} (here : slot index = .node labels run spare)
    (empty : labels.size = 0) :
    Sits slot (.node labels run fun _ => .absent) level path index :=
  ⟨⟨⟨spare, here⟩, LabelSet.size_eq_zero empty, fun _ => trivial⟩, Or.inr ⟨trivial, empty⟩,
    fun _ => trivial⟩

/-- A node above the last level stands where it is found, with the trees that stand in its run. -/
theorem Sits.node {level path : Nat} {below : Label → Tree}
    (here : slot index = .node labels run spare) (shallow : level < levels)
    (present : ∀ label, (below label).present = true)
    (sits : ∀ label, labels.contains label = true → Sits slot (below label) (level + 1)
      (path + label.val * Label.weight level) (run + labels.rank label.val)) :
    Sits slot (.node labels run fun label => if labels.contains label then below label else .absent)
      level path index := by
  refine ⟨⟨⟨spare, here⟩, fun label => ?_, fun label => ?_⟩, Or.inl shallow, fun label => ?_⟩
  · dsimp only
    split
    next member => rw [member, present]
    next missing => exact Bool.eq_false_iff.mpr missing
  · dsimp only
    split
    next member => exact (sits label member).held
    next => trivial
  · dsimp only
    split
    next member => exact (sits label member).filed
    next => trivial

/-- A tree refers to the table that is nested below one of its keys. -/
theorem refers_pos {tree : Tree} {key : Int32} {level value table : Nat}
    (has : tree.lookup key level = some (value, some table)) : 0 < tree.refers table := by
  induction tree generalizing level with
  | absent => cases has
  | entry resident stored nested =>
      rw [lookup] at has
      split at has
      next =>
        cases has
        simp [refers]
      next => cases has
  | node labels run children ih =>
      exact Finset.sum_pos_iff.mpr ⟨_, Finset.mem_univ _, ih _ has⟩

/-- A table to which a tree refers once is nested below one of its keys. -/
theorem eq_of_refers_le_one {tree : Tree} {key other : Int32} {level value further table : Nat}
    (once : tree.refers table ≤ 1) (has : tree.lookup key level = some (value, some table))
    (hasOther : tree.lookup other level = some (further, some table)) : key = other := by
  induction tree generalizing level with
  | absent => cases has
  | entry resident stored nested =>
      simp only [lookup] at has hasOther
      split at has
      next same =>
        split at hasOther
        next sameOther => exact same.symm.trans sameOther
        next => cases hasOther
      next => cases has
  | node labels run children ih =>
      simp only [lookup] at has hasOther
      have some := refers_pos has
      have someOther := refers_pos hasOther
      -- labels of which both children refer to the table would make two references
      have same : Label.ofKey other level = Label.ofKey key level := by
        by_contra differ
        have both := Finset.add_le_sum (f := fun label => (children label).refers table)
          (fun _ _ => Nat.zero_le _) (Finset.mem_univ _) (Finset.mem_univ _) differ
        simp only [refers] at once
        omega
      rw [same] at hasOther
      refine ih _ (Nat.le_trans ?_ once) has hasOther
      exact Finset.single_le_sum (f := fun label => (children label).refers table)
        (fun _ _ => Nat.zero_le _) (Finset.mem_univ _)

end Tree

/-! ### What is left of a walk -/

/-- The visit with which the walk through a table begins. -/
def Table.visit (table : Table) : Visit := { slot := table.slot, level := 0, path := 0 }

namespace Visit

/-- The tree at the slot of a visit. -/
def tree (slot : Nat → Slot) (visit : Visit) : Tree :=
  Tree.ofSlot slot (levels - visit.level) visit.slot

/-- The tree at the slot of a visit stands there. -/
abbrev Sits (slot : Nat → Slot) (visit : Visit) : Prop :=
  (visit.tree slot).Sits slot visit.level visit.path visit.slot

end Visit

namespace Survey

/-- Only nodes wait to be visited. -/
def Ready (slot : Nat → Slot) (survey : Survey) : Prop :=
  ∀ visit ∈ survey.pending, (slot visit.slot).isEntry = false

/-- What a walk still reaches has not been reached before: the runs below the pending nodes, the
tables that are found, and what is left of the node being visited, which claims and refers to so
much. -/
structure Settled (slot : Nat → Slot) (survey : Survey) (tables : Finset Table)
    (claims refers : Nat → Nat) : Prop where
  pending : ∀ visit ∈ survey.pending, visit.Sits slot
  found : ∀ table ∈ tables, (slot table.slot).isEntry = false ∧ table.visit.Sits slot
  sole : ∀ index, survey.seen index +
    (survey.pending.map fun visit => (visit.tree slot).claims index).sum +
    ∑ table ∈ tables, (covers table.slot 1 index + (table.visit.tree slot).claims index) +
    claims index ≤ 1
  linked : ∀ index, (survey.pending.map fun visit => (visit.tree slot).refers index).sum +
    ∑ table ∈ tables, (table.visit.tree slot).refers index + refers index =
      if (⟨index⟩ : Table) ∈ tables then 1 else 0

variable {slot : Nat → Slot} {slots : Array Slot} {survey reached next : Survey}
  {tables : Finset Table} {claims refers : Nat → Nat} {index : Nat}

theorem reach_eq_ok (done : survey.reach index = .ok reached) :
    survey.seen index = 0 ∧ reached.pending = survey.pending ∧
      ∀ other, reached.seen other = survey.seen other + covers index 1 other := by
  rw [reach] at done
  split at done
  next => cases done
  next unseen =>
    cases done
    have fresh : survey.seen index = 0 := by simpa [seen] using unseen
    exact ⟨fresh, rfl, Open.seen_setIfInBounds survey fresh⟩

namespace Settled

/-- What a walk reaches once a slot is reached, it reaches besides that slot. -/
theorem unreach (settled : Settled slot reached tables claims refers)
    (done : survey.reach index = .ok reached) :
    Settled slot survey tables (fun other => covers index 1 other + claims other) refers := by
  obtain ⟨_, pending, seen⟩ := reach_eq_ok done
  refine ⟨pending ▸ settled.pending, settled.found, ?_, pending ▸ settled.linked⟩
  intro other
  have sole := settled.sole other
  rw [seen, pending] at sole
  omega

/-- A node that waits to be visited is left to be reached from before. -/
theorem unpush {visit : Visit} (settled : Settled slot (survey.push visit) tables claims refers) :
    visit.Sits slot ∧
      Settled slot survey tables (fun other => (visit.tree slot).claims other + claims other)
        fun other => (visit.tree slot).refers other + refers other := by
  obtain ⟨sits, pending⟩ := List.forall_mem_cons.mp settled.pending
  refine ⟨sits, pending, settled.found, ?_, ?_⟩
  · intro other
    have sole := settled.sole other
    simp only [push, List.map_cons, List.sum_cons, seen] at sole ⊢
    omega
  · intro other
    have linked := settled.linked other
    simp only [push, List.map_cons, List.sum_cons] at linked
    omega

/-- A node whose tree is still to be reached waits to be visited, if it sits where it waits. -/
theorem push {visit : Visit} (sits : visit.Sits slot)
    (settled : Settled slot survey tables (fun other => (visit.tree slot).claims other + claims other)
      fun other => (visit.tree slot).refers other + refers other) :
    Settled slot (survey.push visit) tables claims refers := by
  refine ⟨List.forall_mem_cons.mpr ⟨sits, settled.pending⟩, settled.found, ?_, ?_⟩
  · intro other
    have sole := settled.sole other
    simp only [Survey.push, List.map_cons, List.sum_cons, seen] at sole ⊢
    omega
  · intro other
    have linked := settled.linked other
    simp only [Survey.push, List.map_cons, List.sum_cons]
    omega

/-- Where no node waits, nothing is left to be reached. -/
theorem nil (none : survey.pending = []) :
    Settled slot survey ∅ (fun _ => 0) (fun _ => 0) := by
  refine ⟨by simp [none], by simp, fun index => ?_, fun index => by simp [none]⟩
  have bit := Bool.toNat_le (survey.reached.getD index true)
  simpa [none, seen] using bit

/-- A table that was reached from an entry is one of those that are found. -/
theorem find (table : Table)
    (settled : Settled slot (reached.push table.visit) tables claims refers)
    (done : survey.reach table.slot = .ok reached) (node : (slot table.slot).isEntry = false) :
    Settled slot survey (insert table tables) claims fun other =>
      (if table.slot = other then 1 else 0) + refers other := by
  obtain ⟨sits, settled⟩ := settled.unpush
  have settled := settled.unreach done
  have fresh : table ∉ tables := by
    intro member
    have sole := settled.sole table.slot
    have least := Finset.single_le_sum
      (f := fun other : Table => covers other.slot 1 table.slot +
        (other.visit.tree slot).claims table.slot) (fun _ _ => Nat.zero_le _) member
    simp only [covers_self] at sole least
    omega
  refine ⟨settled.pending, ?_, ?_, ?_⟩
  · exact Finset.forall_mem_insert _ _ _ |>.mpr ⟨⟨node, sits⟩, settled.found⟩
  · intro other
    have sole := settled.sole other
    rw [Finset.sum_insert fresh]
    omega
  · intro other
    have linked := settled.linked other
    rw [Finset.sum_insert fresh]
    by_cases same : table.slot = other
    · subst same
      rw [if_neg fresh] at linked
      rw [if_pos rfl, if_pos (Finset.mem_insert_self _ _)]
      omega
    · have differ : (⟨other⟩ : Table) ≠ table := fun equal => same (congrArg Table.slot equal).symm
      rw [if_neg same]
      simp only [Finset.mem_insert, differ, false_or]
      omega

end Settled

/-! ### The steps of a walk -/

/-- No entry has an entry nested below it. -/
def Nodal (slot : Nat → Slot) : Prop :=
  ∀ {index : Nat} {key : Int32} {value table : Nat},
    slot index = .entry key value (some table) → (slot table).isEntry = false

section Steps

variable {arena : Arena} {parent : Visit}

/-- When a child was looked at, a tree stands at its slot. -/
theorem Settled.child (nodal : Nodal arena.slot) {label : Label} (ready : survey.Ready arena.slot)
    (done : Survey.child arena.slots parent survey label index = .ok next) :
    next.Ready arena.slot ∧
      ∀ {tables : Finset Table} {claims refers : Nat → Nat},
        Settled arena.slot next tables claims refers →
          let new := Tree.ofSlot arena.slot (levels - (parent.level + 1)) index
          new.Sits arena.slot (parent.level + 1)
              (parent.path + label.val * Label.weight parent.level) index ∧
            ∃ tables, Settled arena.slot survey tables
              (fun other => covers index 1 other + (new.claims other + claims other))
              fun other => new.refers other + refers other := by
  cases looks_of_child done with
  | node first here =>
      have node : (arena.slot index).isEntry = false := by rw [show arena.slot index = _ from here]; rfl
      have pending := (reach_eq_ok first).2.1
      refine ⟨List.forall_mem_cons.mpr ⟨node, pending ▸ ready⟩, fun settled => ?_⟩
      obtain ⟨sits, settled⟩ := settled.unpush
      exact ⟨sits, _, settled.unreach first⟩
  | @entry reached key value first here filed =>
      have filed : (Tree.entry key value none).Filed True (parent.level + 1) _ := filed
      have held : (Tree.entry key value none).Holds arena.slot index := here
      have readyNext : next.Ready arena.slot := by
        rw [Ready, (reach_eq_ok first).2.1]
        exact ready
      refine ⟨readyNext, fun {tables _ _} settled => ?_⟩
      rw [Tree.ofSlot_entry here]
      refine ⟨⟨held, filed⟩, tables, ?_⟩
      simpa only [Tree.claims, Tree.refers, reduceCtorEq, if_false, Nat.zero_add] using
        settled.unreach first
  | @table reached again key value table first here filed second =>
      have filed : (Tree.entry key value (some table)).Filed True (parent.level + 1) _ := filed
      have held : (Tree.entry key value (some table)).Holds arena.slot index := here
      have node := nodal here
      have readyAgain : again.Ready arena.slot := by
        rw [Ready, (reach_eq_ok second).2.1, (reach_eq_ok first).2.1]
        exact ready
      refine ⟨List.forall_mem_cons.mpr ⟨node, readyAgain⟩, fun {tables _ _} settled => ?_⟩
      rw [Tree.ofSlot_entry here]
      refine ⟨⟨held, filed⟩, insert ⟨table⟩ tables, ?_⟩
      have found := (Settled.find ⟨table⟩ settled second node).unreach first
      simpa only [Tree.claims, Tree.refers, Option.some.injEq, Nat.zero_add] using found

/-- When the children of a node were looked at, trees stand side by side at their slots.  The
induction is on the labels that are left; their places follow each other. -/
theorem Settled.children (nodal : Nodal arena.slot) {place : Label → Nat} (labels : List Label) :
    ∀ {index : Nat} {survey : Survey}, survey.Ready arena.slot →
      labels.map place = List.range' index labels.length →
      Survey.children arena.slots parent labels index survey = .ok next →
      next.Ready arena.slot ∧
        ∀ {tables : Finset Table}, Settled arena.slot next tables (fun _ => 0) (fun _ => 0) →
          let below label := Tree.ofSlot arena.slot (levels - (parent.level + 1)) (place label)
          (∀ label ∈ labels, (below label).Sits arena.slot (parent.level + 1)
            (parent.path + label.val * Label.weight parent.level) (place label)) ∧
            ∃ tables, Settled arena.slot survey tables
              (fun other => covers index labels.length other +
                (labels.map fun label => (below label).claims other).sum)
              fun other => (labels.map fun label => (below label).refers other).sum := by
  induction labels with
  | nil =>
      intro index survey ready _ done
      cases done
      refine ⟨ready, fun {tables} settled => ⟨nofun, tables, ?_⟩⟩
      simpa using settled
  | cons label labels ih =>
      intro index survey ready places done
      rw [List.map_cons, List.length_cons, List.range'_succ, List.cons.injEq] at places
      obtain ⟨rfl, behind⟩ := places
      obtain ⟨middle, first, done⟩ := exists_of_bind done
      obtain ⟨readyMiddle, here⟩ := Settled.child nodal ready first
      obtain ⟨readyNext, rest⟩ := ih readyMiddle behind done
      refine ⟨readyNext, fun settled => ?_⟩
      obtain ⟨sits, _, settled⟩ := rest settled
      obtain ⟨sitsHere, tables, settled⟩ := here settled
      refine ⟨List.forall_mem_cons.mpr ⟨sitsHere, sits⟩, tables, settled.pending, settled.found, ?_,
        ?_⟩
      · intro other
        have sole := settled.sole other
        have split := covers_add (place label) 1 labels.length other
        rw [List.length_cons, List.map_cons, List.sum_cons, Nat.add_comm labels.length, split]
        dsimp only at sole ⊢
        omega
      · intro other
        rw [List.map_cons, List.sum_cons]
        exact settled.linked other

/-- When a node was visited, its tree stands at its slot. -/
theorem Settled.visit (nodal : Nodal arena.slot) {node : Visit}
    (isNode : (arena.slot node.slot).isEntry = false) (ready : survey.Ready arena.slot)
    (done : Survey.visit arena.slots node survey = .ok next) :
    next.Ready arena.slot ∧
      ∀ {tables : Finset Table}, Settled arena.slot next tables (fun _ => 0) (fun _ => 0) →
        node.Sits arena.slot ∧
          ∃ tables, Settled arena.slot survey tables (node.tree arena.slot).claims
            (node.tree arena.slot).refers := by
  have content : arena.slots.getD node.slot Slot.empty = arena.slot node.slot := rfl
  cases here : arena.slot node.slot with
  | entry key value nested =>
      rw [here] at isNode
      cases isNode
  | node labels run spare =>
      simp only [Survey.visit, content, here] at done
      split at done
      next empty =>
        cases done
        have shape : node.tree arena.slot = .node labels run fun _ => .absent :=
          Tree.ofSlot_empty here empty
        refine ⟨ready, fun {tables} settled => ?_⟩
        rw [Visit.Sits, shape]
        refine ⟨.empty here empty, tables, ?_⟩
        simpa [Tree.claims, Tree.refers, empty] using settled
      next =>
        split at done
        next => cases done
        next shallow =>
          have remaining : levels - node.level = levels - (node.level + 1) + 1 := by omega
          have shape := Tree.ofSlot_node (levels - (node.level + 1)) here
          rw [← remaining] at shape
          change node.tree arena.slot = _ at shape
          obtain ⟨readyNext, rest⟩ :=
            Settled.children nodal labels.toList ready (labels.map_place_toList run) done
          refine ⟨readyNext, fun settled => ?_⟩
          obtain ⟨sits, tables, settled⟩ := rest settled
          rw [Visit.Sits, shape]
          refine ⟨.node here (Nat.lt_of_not_le shallow) (fun _ => Tree.present_ofSlot)
            fun label member => sits label (LabelSet.mem_toList.mpr member), tables, ?_⟩
          convert settled using 1 <;> funext other <;>
            simp only [Tree.claims, Tree.refers, LabelSet.length_toList, LabelSet.sum_toList,
              apply_ite (Tree.claims · other), apply_ite (Tree.refers · other)]

end Steps

/-- When the walk comes to its end, it has reached tables that stand apart from each other.  The
induction is on the number of slots not yet reached and of nodes still to be visited. -/
theorem Settled.finish {arena : Arena} (nodal : Nodal arena.slot) (size : Nat) :
    ∀ {survey : Survey}, survey.weight ≤ size → survey.Ready arena.slot →
      survey.finish arena.slots = .ok () →
      ∃ tables, Settled arena.slot survey tables (fun _ => 0) (fun _ => 0) := by
  induction size with
  | zero =>
      intro survey small _ _
      refine ⟨∅, .nil (List.eq_nil_of_length_eq_zero ?_)⟩
      rw [weight] at small
      omega
  | succ size ih =>
      intro survey small ready done
      rw [Survey.finish] at done
      split at done
      next none => exact ⟨∅, .nil none⟩
      next node others waiting =>
        split at done
        next => cases done
        next following visited =>
          obtain ⟨reached, pending⟩ := survey
          cases waiting
          obtain ⟨isNode, behind⟩ := List.forall_mem_cons.mp ready
          have readyOthers : Ready arena.slot ⟨reached, others⟩ := behind
          obtain ⟨readyAfter, back⟩ := Settled.visit nodal isNode readyOthers visited
          have lighter := weight_visit visited
          obtain ⟨tables, settled⟩ := ih (by
            simp only [weight, List.length_cons] at small lighter ⊢
            omega) readyAfter done
          obtain ⟨sits, tables, settled⟩ := back settled
          have waits : Settled arena.slot (Survey.push ⟨reached, others⟩ node) tables (fun _ => 0)
              fun _ => 0 := .push sits settled
          exact ⟨tables, waits⟩

end Survey

/-! ### Accepted slots -/

/-- What holds of every slot that was read, before it is checked. -/
def Slot.Narrow : Slot → Prop
  | .node _ run _ => run < LittleEndian.span 4
  | .entry _ _ nested => nested ≠ some 0

instance : DecidablePred Slot.Narrow
  | .node _ run _ => inferInstanceAs (Decidable (run < LittleEndian.span 4))
  | .entry _ _ nested => inferInstanceAs (Decidable (nested ≠ some 0))

open Reader (Yields) in
theorem Slot.yields_read : Yields read Narrow := by
  refine (Yields.number 4).bind fun low small => (Yields.any _).bind fun high _ => ?_
  split
  next =>
    exact (Yields.any _).bind fun labels _ => (Yields.any _).bind fun above _ => .pure small
  next =>
    refine (Yields.any _).bind fun value _ => .pure ?_
    rw [Narrow]
    split
    next => exact nofun
    next some => exact fun same => some (Option.some.inj same)

namespace Forest

variable {slots : Array Slot}

theorem yields_readSlots (count : Nat) : ∀ {slots : Array Slot}, (∀ slot ∈ slots, slot.Narrow) →
    Reader.Yields (readSlots count slots) fun answer =>
      answer.size = slots.size + count ∧ ∀ slot ∈ answer, slot.Narrow := by
  induction count with
  | zero => exact fun narrow => .pure ⟨rfl, narrow⟩
  | succ count ih =>
      intro slots narrow
      refine Slot.yields_read.bind fun slot here => ?_
      have all : ∀ other ∈ slots.push slot, other.Narrow := by
        intro other among
        rcases Array.mem_push.mp among with earlier | rfl
        · exact narrow other earlier
        · exact here
      intro cursor next answer done
      obtain ⟨size, narrow⟩ := ih all _ _ _ done
      rw [Array.size_push] at size
      exact ⟨by omega, narrow⟩

variable {arena : Arena}

/-- Each slot by itself passed its checks. -/
theorem checkSlot_of_checkSlots (checked : checkSlots arena.slots = .ok ()) :
    (arena.slot 0).isEntry = false ∧
      ∀ index < arena.slots.size, checkSlot arena.slots index (arena.slot index) = .ok () := by
  rw [checkSlots] at checked
  split at checked
  next => cases checked
  next top =>
    refine ⟨Bool.eq_false_iff.mpr top, fun index inside => ?_⟩
    refine forM_eq_ok_iff.mp checked (_, index) (List.mk_mem_zipIdx_iff_getElem?.mpr ?_)
    rw [Array.getElem?_toList, Arena.slot_eq_getElem?, Array.getElem?_eq_getElem inside]
    rfl

/-- An accepted entry has a value that fits, and at most a table nested below it. -/
theorem entry_of_checkSlots (checked : checkSlots arena.slots = .ok ()) {index value : Nat}
    {key : Int32} {nested : Option Nat} (here : arena.slot index = .entry key value nested) :
    value ≤ maxValue ∧ ∀ table, nested = some table →
      table < arena.slots.size ∧ (arena.slot table).isEntry = false := by
  have passed := (checkSlot_of_checkSlots checked).2 index (Arena.lt_size_of_entry here)
  rw [here] at passed
  change (if _ then _ else _) = _ at passed
  split at passed
  next => cases passed
  next fits =>
    refine ⟨Nat.le_of_not_lt fits, ?_⟩
    rintro table rfl
    dsimp only at passed
    split at passed
    next good => simpa [Arena.slot_eq_getElem?] using good
    next => cases passed

/-- An accepted node refers to slots of the arena. -/
theorem node_of_checkSlots (checked : checkSlots arena.slots = .ok ()) {index : Nat}
    {labels : LabelSet} {run spare : Nat} (inside : index < arena.slots.size)
    (here : arena.slot index = .node labels run spare) :
    spare < Slot.entryMark ∧ (labels.size = 0 ∨ run + labels.size ≤ arena.slots.size) := by
  have passed := (checkSlot_of_checkSlots checked).2 index inside
  rw [here] at passed
  change (if _ then _ else _) = _ at passed
  split at passed
  next => cases passed
  next good =>
    simp only [ge_iff_le, gt_iff_lt, Bool.or_eq_true, Bool.and_eq_true, decide_eq_true_eq] at good
    omega

/-- Accepted slots that were read have their stored form. -/
theorem sane_of_checkSlots (checked : checkSlots arena.slots = .ok ())
    (few : arena.slots.size ≤ maxSlots) (narrow : ∀ slot ∈ arena.slots, slot.Narrow) :
    arena.Sane := by
  refine ⟨few, fun index => ?_⟩
  by_cases inside : index < arena.slots.size
  · have content : arena.slot index = arena.slots[index] := by
      rw [Arena.slot_eq_getElem?, Array.getElem?_eq_getElem inside]
      rfl
    have small := narrow _ (Array.getElem_mem inside)
    rw [← content] at small
    cases here : arena.slot index with
    | node labels run spare =>
        rw [here] at small
        have marked := (node_of_checkSlots checked inside here).1
        exact ⟨small, Nat.lt_of_lt_of_le marked (Nat.le_mul_of_pos_right _ (by decide))⟩
    | entry key value nested =>
        rw [here] at small
        obtain ⟨fits, node⟩ := entry_of_checkSlots checked here
        have limit : maxSlots < Slot.entryMark := by decide
        refine ⟨fits, ?_⟩
        rintro table rfl
        have below := (node table rfl).1
        refine ⟨Nat.pos_of_ne_zero fun zero => small (congrArg some zero), by omega⟩
  · rw [Arena.slot_of_size_le (Nat.le_of_not_lt inside)]
    exact ⟨by decide, by decide⟩

/-- A forest of slots that pass the checks is read back as it was written. -/
theorem takes_read_ofSlots {slots : Array Slot} (filled : slots.size ≠ 0)
    (few : slots.size ≤ maxSlots) (narrow : ∀ slot ∈ slots, slot.Narrow)
    (checked : checkSlots slots = .ok ()) (walked : checkReachable slots = .ok ()) {count : Nat}
    (fits : count < LittleEndian.span 8) :
    CheckedReader.Takes read (encode ⟨.ofSlots slots, count⟩) (reloaded ⟨.ofSlots slots, count⟩) :=
  have sane : (Arena.ofSlots slots).Sane := sane_of_checkSlots checked few narrow
  takes_read sane filled fits checked walked

/-- A forest of slots that are all in use and pass the checks. -/
structure Readable (forest : Forest) : Prop where
  filled : forest.arena.slots.size ≠ 0
  few : forest.arena.slots.size ≤ maxSlots
  narrow : ∀ slot ∈ forest.arena.slots, slot.Narrow
  checked : checkSlots forest.arena.slots = .ok ()
  walked : checkReachable forest.arena.slots = .ok ()
  used : forest.arena.free = Vector.replicate 33 []
  counted : forest.count < LittleEndian.span 8

instance (forest : Forest) : Decidable forest.Readable :=
  decidable_of_iff
    (forest.arena.slots.size ≠ 0 ∧ forest.arena.slots.size ≤ maxSlots ∧
      (∀ slot ∈ forest.arena.slots, slot.Narrow) ∧ checkSlots forest.arena.slots = .ok () ∧
      checkReachable forest.arena.slots = .ok () ∧
      forest.arena.free = Vector.replicate 33 [] ∧ forest.count < LittleEndian.span 8)
    ⟨fun ⟨filled, few, narrow, checked, walked, used, counted⟩ =>
      ⟨filled, few, narrow, checked, walked, used, counted⟩,
    fun ⟨filled, few, narrow, checked, walked, used, counted⟩ =>
      ⟨filled, few, narrow, checked, walked, used, counted⟩⟩

theorem Readable.takes {forest : Forest} (readable : forest.Readable) :
    CheckedReader.Takes read forest.encode forest.reloaded := by
  obtain ⟨filled, few, narrow, checked, walked, used, counted⟩ := readable
  obtain ⟨⟨slots, free⟩, count⟩ := forest
  obtain rfl : free = Vector.replicate 33 [] := used
  exact takes_read_ofSlots filled few narrow checked walked counted

section Coherence

variable {loose : Prop} {forest : Forest} {tables : Finset Table} {tree : Table → Tree}

/-- What is nested below a key is referred to by the tree of its table. -/
theorem Standing.lookup_nested (laid : Standing loose forest.arena tables tree) {table : Table}
    (member : table ∈ tables) {key : Int32} {value : Nat} {nested : Table}
    (has : forest.under? table key = some (value, some nested)) :
    (tree table).lookup key 0 = some (value, some nested.slot) := by
  rw [laid.under?_eq forest member] at has
  obtain ⟨⟨stored, below⟩, found, same⟩ := Option.map_eq_some_iff.mp has
  obtain ⟨rfl, inner⟩ := Prod.mk.inj same
  obtain ⟨slot, rfl, rfl⟩ := Option.map_eq_some_iff.mp inner
  exact found

/-- Tables that stand in a forest are coherent when every table but the root is referred to once, and
nothing else is. -/
theorem Standing.coherent (laid : Standing loose forest.arena tables tree) (rooted : root ∈ tables)
    (linked : ∀ table : Table, ∑ other ∈ tables, (tree other).refers table.slot =
      if table ∈ tables.erase root then 1 else 0) : Coherent loose forest tables := by
  have least : ∀ (nested : Table), ∀ table ∈ tables,
      (tree table).refers nested.slot ≤ ∑ other ∈ tables, (tree other).refers nested.slot :=
    fun nested _ member =>
      Finset.single_le_sum (f := fun table => (tree table).refers nested.slot)
        (fun _ _ => Nat.zero_le _) member
  refine ⟨⟨tree, laid⟩, rooted, ?_, ?_⟩
  · intro table member key value nested has
    have referred := Tree.refers_pos (laid.lookup_nested member has)
    have among : nested ∈ tables.erase root := by
      by_contra unknown
      have none := least nested table member
      rw [linked, if_neg unknown] at none
      omega
    exact ⟨Finset.mem_of_mem_erase among, Finset.ne_of_mem_erase among⟩
  · intro first second inFirst inSecond key other value further nested hasFirst hasSecond
    have found := laid.lookup_nested inFirst hasFirst
    have foundSecond := laid.lookup_nested inSecond hasSecond
    have once : ∑ other ∈ tables, (tree other).refers nested.slot ≤ 1 := by
      rw [linked]
      split <;> omega
    have same : first = second := by
      by_contra differ
      have both := Finset.add_le_sum (f := fun table => (tree table).refers nested.slot)
        (fun _ _ => Nat.zero_le _) inFirst inSecond differ
      have referred := Tree.refers_pos found
      have referredAgain := Tree.refers_pos foundSecond
      omega
    subst same
    exact ⟨rfl, Tree.eq_of_refers_le_one (Nat.le_trans (least nested first inFirst) once) found
      foundSecond⟩

end Coherence

/-- The tables that a walk from its start has found stand in the arena beside the root, if no slot is
free. -/
theorem standing_of_settled {tables : Finset Table}
    (settled : Survey.Settled arena.slot (.start arena.slots.size) tables (fun _ => 0) fun _ => 0)
    (sane : arena.Sane) (filled : arena.slots.size ≠ 0) (used : ∀ index, arena.parked index = 0)
    (top : (arena.slot 0).isEntry = false) :
    root ∉ tables ∧
      Standing True arena (insert root tables) fun table => table.visit.tree arena.slot := by
  have pending : (Survey.start arena.slots.size).pending = [root.visit] := rfl
  have fresh : root ∉ tables := by
    intro member
    have sole := settled.sole 0
    have least := Finset.single_le_sum
      (f := fun table : Table => covers table.slot 1 0 + (table.visit.tree arena.slot).claims 0)
      (fun _ _ => Nat.zero_le _) member
    have here : covers root.slot 1 0 = 1 := covers_self _
    rw [Survey.seen_start, if_pos (Or.inl rfl)] at sole
    omega
  have sits : ∀ table ∈ insert root tables,
      (arena.slot table.slot).isEntry = false ∧ table.visit.Sits arena.slot := by
    refine (Finset.forall_mem_insert _ _ _).mpr ⟨⟨top, ?_⟩, settled.found⟩
    exact settled.pending root.visit (pending ▸ List.mem_singleton_self _)
  refine ⟨fresh, fun table member => Tree.isNode_ofSlot (sits table member).1,
    fun table member => (sits table member).2.held,
    fun table member => (sits table member).2.filed, fun index => ?_, sane⟩
  have sole := settled.sole index
  have first : covers root.slot 1 index = if index = 0 then 1 else 0 := by
    simp only [covers, root, Nat.zero_le, true_and, Nat.zero_add, Nat.lt_one_iff]
  rw [Survey.seen_start, pending, List.map_singleton, List.sum_singleton] at sole
  rw [Finset.sum_insert fresh, Arena.available, used, first]
  by_cases zero : index = 0
  · rw [if_pos (Or.inl zero)] at sole
    rw [if_pos zero, if_pos (by omega)]
    omega
  · rw [if_neg zero]
    by_cases inside : index < arena.slots.size
    · rw [if_pos inside]
      omega
    · rw [if_pos (Or.inr (Nat.le_of_not_lt inside))] at sole
      rw [if_neg inside]
      omega

/-- Slots that pass the checks hold coherent tables, if none of them is free. -/
theorem coherent_of_checks (sane : arena.Sane) (filled : arena.slots.size ≠ 0)
    (used : ∀ index, arena.parked index = 0) (checked : checkSlots arena.slots = .ok ())
    (walked : checkReachable arena.slots = .ok ()) (count : Nat) :
    ∃ tables, Coherent True ⟨arena, count⟩ tables := by
  have nodal : Survey.Nodal arena.slot := fun here => ((entry_of_checkSlots checked here).2 _ rfl).2
  have top := (checkSlot_of_checkSlots checked).1
  have ready : (Survey.start arena.slots.size).Ready arena.slot := by
    intro visit among
    rw [List.mem_singleton.mp among]
    exact top
  obtain ⟨tables, settled⟩ := Survey.Settled.finish nodal _ (Nat.le_refl _) ready walked
  obtain ⟨fresh, laid⟩ := standing_of_settled settled sane filled used top
  have standing : Standing True (Forest.mk arena count).arena (insert root tables) _ := laid
  refine ⟨_, standing.coherent (Finset.mem_insert_self _ _) fun table => ?_⟩
  have linked := settled.linked table.slot
  have pending : (Survey.start arena.slots.size).pending = [root.visit] := rfl
  rw [pending, List.map_singleton, List.sum_singleton] at linked
  rw [Finset.sum_insert fresh, Finset.erase_insert fresh]
  exact linked

/-- What is read passed the checks, and no slot of it is free. -/
theorem yields_readable : CheckedReader.Yields read Readable := by
  refine (CheckedReader.Yields.any _).bind fun slotCount _ =>
    (CheckedReader.Yields.ofReader (Reader.Yields.number 8)).bind fun count counted => ?_
  split
  next => exact .refuse _
  next good =>
    simp only [Bool.or_eq_true, decide_eq_true_eq, not_or, not_lt] at good
    refine (CheckedReader.Yields.ofReader (yields_readSlots slotCount (by simp))).bind
      fun slots ⟨size, narrow⟩ => ?_
    refine (CheckedReader.Yields.require _).bind fun _ checked =>
      (CheckedReader.Yields.require _).bind fun _ walked => .pure ?_
    have size : slots.size = slotCount := size.trans (Nat.zero_add _)
    have filled : slots.size ≠ 0 := by omega
    have few : slots.size ≤ maxSlots := by omega
    exact ⟨filled, few, narrow, checked, walked, rfl, counted⟩

theorem Readable.sane {forest : Forest} (readable : forest.Readable) : forest.arena.Sane :=
  sane_of_checkSlots readable.checked readable.few readable.narrow

theorem Readable.arena_eq {forest : Forest} (readable : forest.Readable) :
    forest.arena = .ofSlots forest.arena.slots := by
  obtain ⟨⟨slots, free⟩, count⟩ := forest
  obtain rfl : free = Vector.replicate 33 [] := readable.used
  rfl

/-- What passed the checks is the same after it is written and read. -/
theorem Readable.reloaded_eq {forest : Forest} (readable : forest.Readable) :
    forest.reloaded = forest := by
  rw [reloaded, ← readable.arena_eq]

/-- A forest that passed the checks holds coherent tables. -/
theorem Readable.coherent {forest : Forest} (readable : forest.Readable) :
    ∃ tables, Coherent True forest tables := by
  refine coherent_of_checks readable.sane readable.filled (fun index => ?_) readable.checked
    readable.walked forest.count
  rw [readable.arena_eq]
  exact Arena.parked_ofSlots _ index

/-- A forest that is read holds coherent tables. -/
theorem yields_read :
    CheckedReader.Yields read fun forest => ∃ tables, Coherent True forest tables :=
  fun cursor next forest accepted => (yields_readable cursor next forest accepted).coherent

end Forest

end Lexicon

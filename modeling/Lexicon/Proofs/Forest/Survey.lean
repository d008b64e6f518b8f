/-
Module: Lexicon.Proofs.Forest.Survey
Layer: Proofs
Purpose: The checks on slots from outside accept the slots of every forest that was put together by
  the operations.
Imports: Lexicon.Forest.Validation, Lexicon.Proofs.Bytes.Reads, Lexicon.Proofs.Forest.Listing,
  Lexicon.Proofs.Forest.Tidiness
Trusted boundary: none
Main exports: Tree.marks, Survey.Looks, Survey.Open, Forest.checkReachable_eq_ok,
  Forest.checkSlots_eq_ok
-/
import Lexicon.Forest.Validation
import Lexicon.Proofs.Bytes.Reads
import Lexicon.Proofs.Forest.Listing
import Lexicon.Proofs.Forest.Tidiness

namespace Lexicon

/-! ### Members and their places -/

namespace LabelSet

theorem mem_toList {labels : LabelSet} {label : Label} :
    label ∈ labels.toList ↔ labels.contains label = true := by
  simp [toList, List.mem_finRange]

theorem nodup_toList (labels : LabelSet) : labels.toList.Nodup :=
  (List.nodup_finRange 32).filter _

/-- The members stand one after the other, in ascending order. -/
theorem map_rank_toList (labels : LabelSet) :
    (labels.toList.map fun label => labels.rank label.val) = List.range labels.size := by
  have ascending : (labels.toList.map fun label => labels.rank label.val).Pairwise (· < ·) := by
    rw [List.pairwise_map]
    refine ((List.pairwise_lt_finRange 32).filter _).imp_of_mem ?_
    intro low high amongLow _ below
    exact rank_lt_rank (mem_toList.mp amongLow) below
  refine List.Perm.eq_of_pairwise (fun _ _ _ _ below above => ?_) ascending List.pairwise_lt_range ?_
  · omega
  · apply (List.perm_ext_iff_of_nodup (ascending.imp Nat.ne_of_lt) List.nodup_range).mpr
    intro place
    rw [List.mem_map, List.mem_range]
    constructor
    · rintro ⟨label, among, rfl⟩
      exact rank_lt_size (mem_toList.mp among)
    · intro inside
      obtain ⟨label, member, placed⟩ := exists_rank_eq inside
      exact ⟨label, mem_toList.mpr member, placed⟩

theorem length_toList (labels : LabelSet) : labels.toList.length = labels.size := by
  have ranks := congrArg List.length labels.map_rank_toList
  simpa using ranks

/-- The children under the members stand side by side. -/
theorem map_place_toList (labels : LabelSet) (run : Nat) :
    (labels.toList.map fun label => run + labels.rank label.val) =
      List.range' run labels.toList.length := by
  have ranks := congrArg (List.map (run + ·)) labels.map_rank_toList
  rw [List.map_map, List.range_eq_range', List.map_add_range', Nat.add_zero] at ranks
  rw [length_toList]
  exact ranks

end LabelSet

/-- A sum is at most one when no summand is more and no two of them are something. -/
theorem sum_le_one {ι : Type} {members : Finset ι} {count : ι → Nat}
    (least : ∀ one ∈ members, count one ≤ 1)
    (sole : ∀ one ∈ members, ∀ other ∈ members, 0 < count one → 0 < count other → one = other) :
    ∑ one ∈ members, count one ≤ 1 := by
  by_cases some : ∃ one ∈ members, 0 < count one
  · obtain ⟨one, among, positive⟩ := some
    rw [Finset.sum_eq_single one]
    · exact least one among
    · intro other amongOther differ
      by_contra counted
      exact differ (sole other amongOther one among (Nat.pos_of_ne_zero counted) positive)
    · exact fun outside => absurd among outside
  · have nothing : ∑ one ∈ members, count one = 0 := by
      apply Finset.sum_eq_zero
      intro one among
      by_contra counted
      exact some ⟨one, among, Nat.pos_of_ne_zero counted⟩
    omega

/-! ### References to tables -/

namespace Tree

/-- How often the entries of a tree have the table at a slot nested below them. -/
def refers : Tree → Nat → Nat
  | .absent, _ => 0
  | .entry _ _ nested, index => if nested = some index then 1 else 0
  | .node _ _ children, index => ∑ label, (children label).refers index

/-- How often the way through a tree and into the tables nested in it leads to a slot. -/
def marks (tree : Tree) (index : Nat) : Nat := tree.claims index + tree.refers index

section References

variable {loose : Prop} {tree : Tree} {level path index : Nat}

/-- A table that a tree refers to is nested below one of its keys. -/
theorem exists_lookup_of_refers (filed : tree.Filed loose level path)
    (small : path < Label.weight level) (referred : 0 < tree.refers index) :
    ∃ key value, tree.lookup key level = some (value, some index) := by
  induction tree generalizing level path with
  | absent => cases referred
  | entry key value nested =>
      simp only [refers] at referred
      split at referred
      next same => exact ⟨key, value, by simp [lookup, same]⟩
      next => cases referred
  | node labels run children ih =>
      obtain ⟨label, _, some⟩ := Finset.sum_pos_iff.mp referred
      obtain ⟨key, value, has⟩ :=
        ih label (filed.2 label) (Label.add_mul_weight_lt small label) some
      refine ⟨key, value, ?_⟩
      rw [lookup, (ofKey_of_lookup small (filed.2 label) has).2]
      exact has

/-- A tree refers once to a table that is nested below one key. -/
theorem refers_le_one (filed : tree.Filed loose level path) (small : path < Label.weight level)
    (unique : ∀ {key other : Int32} {value further : Nat},
      tree.lookup key level = some (value, some index) →
      tree.lookup other level = some (further, some index) → key = other) :
    tree.refers index ≤ 1 := by
  induction tree generalizing level path with
  | absent => exact Nat.zero_le 1
  | entry =>
      simp only [refers]
      split <;> omega
  | node labels run children ih =>
      have along : ∀ {label : Label} {key : Int32} {content : Nat × Option Nat},
          (children label).lookup key (level + 1) = some content →
            (Tree.node labels run children).lookup key level = some content := by
        intro label key content has
        rw [lookup, (ofKey_of_lookup small (filed.2 label) has).2]
        exact has
      apply sum_le_one
      · intro label _
        exact ih label (filed.2 label) (Label.add_mul_weight_lt small label)
          fun has hasOther => unique (along has) (along hasOther)
      · intro first _ second _ someFirst someSecond
        obtain ⟨key, value, has⟩ := exists_lookup_of_refers (filed.2 first)
          (Label.add_mul_weight_lt small first) someFirst
        obtain ⟨other, further, hasOther⟩ := exists_lookup_of_refers (filed.2 second)
          (Label.add_mul_weight_lt small second) someSecond
        rw [← (ofKey_of_lookup small (filed.2 first) has).2,
          ← (ofKey_of_lookup small (filed.2 second) hasOther).2, unique (along has) (along hasOther)]

end References

end Tree

namespace Forest

variable {loose : Prop} {forest : Forest} {tables : Finset Table} {tree : Table → Tree}

/-- The tables of a coherent forest refer to each table but the root once at most. -/
theorem Coherent.refers_le_one (sound : Coherent loose forest tables)
    (laid : Standing loose forest.arena tables tree) (index : Nat) :
    ∑ table ∈ tables, (tree table).refers index ≤ 1 ∧
      (0 < ∑ table ∈ tables, (tree table).refers index →
        (⟨index⟩ : Table) ∈ tables ∧ index ≠ 0) := by
  have has : ∀ table ∈ tables, ∀ {key : Int32} {value : Nat},
      (tree table).lookup key 0 = some (value, some index) →
        forest.under? table key = some (value, some ⟨index⟩) := by
    intro table member key value found
    rw [laid.under?_eq forest member, found]
    rfl
  refine ⟨sum_le_one ?_ ?_, ?_⟩
  · intro table member
    exact Tree.refers_le_one (laid.filed table member) Nat.one_pos fun first second =>
      (sound.owned member member (has table member first) (has table member second)).2
  · intro first inFirst second inSecond someFirst someSecond
    obtain ⟨_, _, foundFirst⟩ :=
      Tree.exists_lookup_of_refers (laid.filed first inFirst) Nat.one_pos someFirst
    obtain ⟨_, _, foundSecond⟩ :=
      Tree.exists_lookup_of_refers (laid.filed second inSecond) Nat.one_pos someSecond
    exact (sound.owned inFirst inSecond (has first inFirst foundFirst)
      (has second inSecond foundSecond)).1
  · intro referred
    obtain ⟨table, member, some⟩ := Finset.sum_pos_iff.mp referred
    obtain ⟨_, _, found⟩ :=
      Tree.exists_lookup_of_refers (laid.filed table member) Nat.one_pos some
    obtain ⟨known, top⟩ := sound.linked member (has table member found)
    exact ⟨known, fun same => top (congrArg Table.mk same)⟩

/-- Of the start of the walk and all ways through the tables, one at most leads to a slot. -/
theorem Coherent.marks_le_one (sound : Coherent loose forest tables)
    (laid : Standing loose forest.arena tables tree) (index : Nat) :
    (if index = 0 ∨ forest.arena.slots.size ≤ index then 1 else 0) +
      ∑ table ∈ tables, (tree table).marks index ≤ 1 := by
  have sole := laid.sole index
  have split : ∑ table ∈ tables, (tree table).marks index =
      ∑ table ∈ tables, (tree table).claims index +
        ∑ table ∈ tables, (tree table).refers index := Finset.sum_add_distrib
  rw [Finset.sum_add_distrib] at sole
  obtain ⟨once, known⟩ := sound.refers_le_one laid index
  -- A slot at which a table stands is in the arena and in nobody's run.
  have top : (⟨index⟩ : Table) ∈ tables → index < forest.arena.slots.size ∧
      ∑ table ∈ tables, (tree table).claims index = 0 := by
    intro member
    have least := Finset.single_le_sum (f := fun table : Table => covers table.slot 1 index)
      (fun _ _ => Nat.zero_le _) member
    rw [covers_self] at least
    exact ⟨Arena.lt_size_of_available (by omega), by omega⟩
  by_cases referred : 0 < ∑ table ∈ tables, (tree table).refers index
  · obtain ⟨member, differ⟩ := known referred
    obtain ⟨inside, unclaimed⟩ := top member
    rw [if_neg (by omega)]
    omega
  · by_cases first : index = 0
    · subst first
      have unclaimed := (top sound.rooted).2
      rw [if_pos (Or.inl rfl)]
      omega
    · by_cases inside : index < forest.arena.slots.size
      · rw [if_neg (by omega)]
        omega
      · have outside : forest.arena.available index ≠ 0 := fun taken =>
          inside (Arena.lt_size_of_available taken)
        rw [if_pos (by omega)]
        omega

end Forest

/-! ### The walk -/

/-- The tree at the slot of a node that is still to be visited. -/
structure Visit.Meets (slot : Nat → Slot) (tables : Finset Table) (visit : Visit) (tree : Tree) :
    Prop where
  node : tree.isNode = true
  held : tree.Holds slot visit.slot
  filed : tree.Filed True visit.level visit.path
  linked : ∀ index, 0 < tree.refers index → (⟨index⟩ : Table) ∈ tables

namespace Survey

/-- Whether a slot has been reached, as a number.  A slot outside can not be reached. -/
def seen (survey : Survey) (index : Nat) : Nat := (survey.reached.getD index true).toNat

/-- Before the walk only the root counts as reached, and what is outside. -/
theorem seen_start (size index : Nat) :
    (start size).seen index = if index = 0 ∨ size ≤ index then 1 else 0 := by
  simp only [seen, start, Array.getD_eq_getD_getElem?, Array.getElem?_setIfInBounds,
    Array.size_replicate, Array.getElem?_replicate]
  by_cases first : index = 0
  · subst first
    simp only [if_true, true_or]
    split <;> rfl
  · rw [if_neg (Ne.symm first)]
    by_cases inside : index < size
    · rw [if_pos inside, if_neg (by omega)]
      rfl
    · rw [if_neg inside, if_pos (by omega)]
      rfl

/-- What looking at a child of a node does where it is accepted.  Its slot is reached; a node is then
left for later, and an entry has to be filed where it stands, and leaves the table that is nested
below it for later. -/
inductive Looks (slots : Array Slot) (parent : Visit) (survey : Survey) (label : Label) (index : Nat) :
    Survey → Prop
  | node {reached : Survey} {labels : LabelSet} {run spare : Nat}
      (first : survey.reach index = .ok reached)
      (here : slots.getD index Slot.empty = .node labels run spare) :
      Looks slots parent survey label index
        (reached.push ⟨index, parent.level + 1,
          parent.path + label.val * Label.weight parent.level⟩)
  | entry {reached : Survey} {key : Int32} {value : Nat} (first : survey.reach index = .ok reached)
      (here : slots.getD index Slot.empty = .entry key value none)
      (filed : key.toUInt32.toNat % Label.weight (parent.level + 1) =
        parent.path + label.val * Label.weight parent.level) :
      Looks slots parent survey label index reached
  | table {reached again : Survey} {key : Int32} {value table : Nat}
      (first : survey.reach index = .ok reached)
      (here : slots.getD index Slot.empty = .entry key value (some table))
      (filed : key.toUInt32.toNat % Label.weight (parent.level + 1) =
        parent.path + label.val * Label.weight parent.level)
      (second : reached.reach table = .ok again) :
      Looks slots parent survey label index (again.push ⟨table, 0, 0⟩)

theorem looks_of_child {slots : Array Slot} {parent : Visit} {survey next : Survey} {label : Label}
    {index : Nat} (done : child slots parent survey label index = .ok next) :
    Looks slots parent survey label index next := by
  obtain ⟨reached, first, done⟩ := exists_of_bind done
  split at done
  next labels run spare here =>
    cases done
    exact .node first here
  next key value nested here =>
    split at done
    next => cases done
    next filed =>
      cases nested with
      | none =>
          cases done
          exact .entry first here (not_not.mp filed)
      | some table =>
          obtain ⟨again, second, done⟩ := exists_of_bind done
          cases done
          exact .table first here (not_not.mp filed) second

theorem Looks.child_eq {slots : Array Slot} {parent : Visit} {survey next : Survey} {label : Label}
    {index : Nat} (looks : Looks slots parent survey label index next) :
    child slots parent survey label index = .ok next := by
  cases looks with
  | node first here => simp only [child, first, here, bind, Except.bind, pure, Except.pure]
  | entry first here filed =>
      simp only [child, first, here, filed, bind, Except.bind, pure, Except.pure, ne_eq, not_true,
        if_false]
  | table first here filed second =>
      simp only [child, first, here, filed, second, bind, Except.bind, pure, Except.pure, ne_eq,
        not_true, if_false]

/-- How often the ways through the tables that were not reached lead to a slot. -/
def awaited (tables : Finset Table) (tree : Table → Tree) (survey : Survey) (index : Nat) : Nat :=
  ∑ table ∈ tables, (1 - survey.seen table.slot) * (tree table).marks index

/-- The walk is under way: at each pending node stands a tree, and one way at most leads to a slot:
from what was reached, from the pending nodes, from the tables not yet reached, or from what is left
of the node being visited. -/
structure Open (slot : Nat → Slot) (tables : Finset Table) (tree : Table → Tree) (survey : Survey)
    (trees : List Tree) (left : Nat → Nat) : Prop where
  known : ∀ table ∈ tables, Visit.Meets slot tables ⟨table.slot, 0, 0⟩ (tree table)
  meets : List.Forall₂ (Visit.Meets slot tables) survey.pending trees
  sole : ∀ index, survey.seen index + (trees.map (·.marks index)).sum +
    awaited tables tree survey index + left index ≤ 1

namespace Open

variable {arena : Arena} {tables : Finset Table} {tree : Table → Tree} {survey : Survey}
  {trees : List Tree} {left rest : Nat → Nat}

theorem seen_setIfInBounds (survey : Survey) {index : Nat} (fresh : survey.seen index = 0)
    (other : Nat) :
    Survey.seen ⟨survey.reached.setIfInBounds index true, survey.pending⟩ other =
      survey.seen other + covers index 1 other := by
  have inside : index < survey.reached.size := by
    by_contra outside
    simp [seen, Array.getD, outside] at fresh
  simp only [seen, Array.getD_eq_getD_getElem?, Array.getElem?_setIfInBounds] at fresh ⊢
  by_cases same : index = other
  · subst same
    rw [if_pos rfl, if_pos inside, fresh, covers_self]
    rfl
  · rw [if_neg same, covers_of_not_mem (by omega)]
    rfl

/-- A slot to which something is left to lead can be reached. -/
theorem reach (walk : Open arena.slot tables tree survey trees left) {index : Nat}
    (next : ∀ other, left other = covers index 1 other + rest other) :
    ∃ reached, survey.reach index = .ok reached ∧ survey.seen index = 0 ∧
      (∀ other, reached.seen other = survey.seen other + covers index 1 other) ∧
      reached.pending = survey.pending ∧
      Open arena.slot tables tree reached trees rest := by
  have fresh : survey.seen index = 0 := by
    have sole := walk.sole index
    rw [next, covers_self] at sole
    omega
  have unseen : survey.reached.getD index true = false := by
    simpa [seen] using fresh
  have marked := seen_setIfInBounds survey fresh
  refine ⟨_, by rw [Survey.reach, unseen]; rfl, fresh, marked, rfl, walk.known, walk.meets, ?_⟩
  intro other
  have sole := walk.sole other
  rw [next] at sole
  have fewer : awaited tables tree ⟨survey.reached.setIfInBounds index true, survey.pending⟩ other ≤
      awaited tables tree survey other := by
    apply Finset.sum_le_sum
    intro table _
    apply Nat.mul_le_mul_right
    rw [marked]
    omega
  rw [marked]
  omega

/-- A node that was reached waits to be visited. -/
theorem push (walk : Open arena.slot tables tree survey trees left) {visit : Visit} {new : Tree}
    (meets : visit.Meets arena.slot tables new)
    (next : ∀ other, left other = new.marks other + rest other) :
    Open arena.slot tables tree (survey.push visit) (new :: trees) rest := by
  refine ⟨walk.known, .cons meets walk.meets, ?_⟩
  intro other
  have sole := walk.sole other
  rw [next] at sole
  rw [List.map_cons, List.sum_cons]
  exact Nat.le_trans (Nat.le_of_eq (by simp only [seen, awaited, Survey.push]; omega)) sole

/-- A table can be reached to which an entry is left to lead; its tree waits to be visited. -/
theorem reachTable (walk : Open arena.slot tables tree survey trees left) {index : Nat}
    (member : (⟨index⟩ : Table) ∈ tables)
    (next : ∀ other, left other = covers index 1 other + rest other) :
    ∃ reached, survey.reach index = .ok reached ∧
      Open arena.slot tables tree (reached.push ⟨index, 0, 0⟩) (tree ⟨index⟩ :: trees) rest := by
  obtain ⟨reached, done, fresh, marked, pending, after⟩ := walk.reach next
  refine ⟨reached, done, ?_⟩
  refine ⟨after.known, .cons (after.known _ member) after.meets, ?_⟩
  intro other
  have sole := walk.sole other
  rw [next] at sole
  -- The table is no longer awaited, but pending.
  have moved : awaited tables tree reached other + (tree ⟨index⟩).marks other ≤
      awaited tables tree survey other := by
    have change := sum_add_eq_of_differ member
      (fun table : Table => (1 - reached.seen table.slot) * (tree table).marks other)
      (fun table : Table => (1 - survey.seen table.slot) * (tree table).marks other)
      (by
        intro table _ differ
        have apart : index ≠ table.slot := fun same => differ (by cases table; cases same; rfl)
        simp only [marked, covers_of_not_mem (show table.slot < index ∨ index + 1 ≤ table.slot by
          omega), Nat.add_zero])
    simp only [marked, fresh, covers_self] at change
    simp only [awaited, marked]
    omega
  rw [List.map_cons, List.sum_cons]
  show reached.seen other + _ + awaited tables tree reached other + rest other ≤ 1
  rw [marked]
  omega

section Children

variable {parent : Visit}

/-- What is left to be reached of a node whose children under some labels are still to be looked
at. -/
def ahead (children : Label → Tree) (rest : List Label) (index other : Nat) : Nat :=
  covers index rest.length other + (rest.map fun label => (children label).marks other).sum

theorem ahead_cons (children : Label → Tree) (label : Label) (rest : List Label)
    (index other : Nat) :
    ahead children (label :: rest) index other =
      covers index 1 other +
        ((children label).marks other + ahead children rest (index + 1) other) := by
  rw [ahead, ahead, List.length_cons, Nat.add_comm rest.length, covers_add, List.map_cons,
    List.sum_cons]
  omega

/-- One child of a node is looked at without complaint. -/
theorem child {label : Label} {new : Tree} {index : Nat} (present : new.present = true)
    (held : new.Holds arena.slot index)
    (filed : new.Filed True (parent.level + 1)
      (parent.path + label.val * Label.weight parent.level))
    (linked : ∀ index, 0 < new.refers index → (⟨index⟩ : Table) ∈ tables)
    (next : ∀ other, left other = covers index 1 other + (new.marks other + rest other))
    (walk : Open arena.slot tables tree survey trees left) :
    ∃ reached further, Survey.child arena.slots parent survey label index = .ok reached ∧
      Open arena.slot tables tree reached further rest := by
  obtain ⟨reached, first, _, _, _, after⟩ := walk.reach next
  cases new with
  | absent => cases present
  | node labels run children =>
      obtain ⟨spare, here⟩ := held.1
      exact ⟨_, _, (Looks.node first here).child_eq,
        after.push ⟨rfl, held, filed, linked⟩ fun _ => rfl⟩
  | entry key value nested =>
      cases nested with
      | none =>
          refine ⟨_, trees, (Looks.entry first held filed).child_eq, after.known, after.meets, ?_⟩
          intro other
          simpa [Tree.marks, Tree.claims, Tree.refers] using after.sole other
      | some table =>
          have member : (⟨table⟩ : Table) ∈ tables := linked table (by simp [Tree.refers])
          have further : ∀ other, (Tree.entry key value (some table)).marks other + rest other =
              covers table 1 other + rest other := by
            intro other
            simp only [Tree.marks, Tree.claims, Tree.refers, covers, Option.some.injEq]
            split <;> split <;> omega
          obtain ⟨again, second, last⟩ := after.reachTable member further
          exact ⟨_, _, (Looks.table first held filed second).child_eq, last⟩

/-- The children of a node are looked at without complaint.  The induction is on the labels that are
left; their places follow each other. -/
theorem children {below : Label → Tree} {place : Label → Nat}
    (held : ∀ label, (below label).Holds arena.slot (place label))
    (filed : ∀ label, (below label).Filed True (parent.level + 1)
      (parent.path + label.val * Label.weight parent.level))
    (linked : ∀ label index, 0 < (below label).refers index → (⟨index⟩ : Table) ∈ tables)
    (labels : List Label) :
    ∀ {index : Nat} {survey : Survey} {trees : List Tree},
      (∀ label ∈ labels, (below label).present = true) →
      labels.map place = List.range' index labels.length →
      Open arena.slot tables tree survey trees (ahead below labels index) →
      ∃ reached further, Survey.children arena.slots parent labels index survey = .ok reached ∧
        Open arena.slot tables tree reached further fun _ => 0 := by
  induction labels with
  | nil =>
      intro index survey trees _ _ walk
      refine ⟨survey, trees, rfl, walk.known, walk.meets, ?_⟩
      intro other
      simpa [ahead] using walk.sole other
  | cons label labels ih =>
      intro index survey trees present places walk
      rw [List.map_cons, List.length_cons, List.range'_succ, List.cons.injEq] at places
      obtain ⟨here, behind⟩ := places
      obtain ⟨reached, further, done, after⟩ := walk.child
        (present label List.mem_cons_self) (here ▸ held label) (filed label) (linked label)
        (ahead_cons below label labels index)
      obtain ⟨last, others, doneRest, walkRest⟩ :=
        ih (fun other among => present other (List.mem_cons_of_mem label among)) behind after
      refine ⟨last, others, ?_, walkRest⟩
      simp only [Survey.children, bind, Except.bind, done, doneRest]

end Children

/-- A pending node is visited without complaint. -/
theorem visit {node : Visit} {new : Tree} (meets : node.Meets arena.slot tables new)
    (walk : Open arena.slot tables tree survey trees new.marks) :
    ∃ reached further, Survey.visit arena.slots node survey = .ok reached ∧
      Open arena.slot tables tree reached further fun _ => 0 := by
  obtain ⟨isNode, held, filed, linked⟩ := meets
  cases new with
  | absent => cases isNode
  | entry => cases isNode
  | node labels run below =>
      obtain ⟨⟨spare, here⟩, members, held⟩ := held
      have content : arena.slots.getD node.slot Slot.empty = .node labels run spare := here
      simp only [Survey.visit, content]
      split
      next =>
        refine ⟨survey, trees, rfl, walk.known, walk.meets, ?_⟩
        intro other
        have sole := walk.sole other
        omega
      next some =>
        have shallow : node.level < levels := filed.1.resolve_right fun deep => some deep.2
        rw [if_neg (by omega)]
        refine Open.children held filed.2 ?_ labels.toList ?_ ?_ ⟨walk.known, walk.meets, ?_⟩
        · intro label index referred
          exact linked index (Finset.sum_pos_iff.mpr ⟨label, Finset.mem_univ _, referred⟩)
        · intro label among
          exact (members label).symm.trans (LabelSet.mem_toList.mp among)
        · exact labels.map_place_toList run
        · intro other
          have sole := walk.sole other
          have listed : (labels.toList.map fun label => (below label).marks other).sum ≤
              ∑ label, (below label).marks other := by
            rw [← List.sum_toFinset _ labels.nodup_toList]
            exact Finset.sum_le_sum_of_subset (Finset.subset_univ _)
          have split : ∑ label, (below label).marks other =
              ∑ label, (below label).claims other + ∑ label, (below label).refers other :=
            Finset.sum_add_distrib
          have whole : (Tree.node labels run below).marks other = covers run labels.size other +
              ∑ label, (below label).claims other + ∑ label, (below label).refers other := rfl
          rw [ahead, LabelSet.length_toList]
          omega

/-- The tree at the first pending node is what is left to be reached of it once it is taken. -/
theorem take {node : Visit} {others : List Visit} (waiting : survey.pending = node :: others)
    (walk : Open arena.slot tables tree survey trees fun _ => 0) :
    ∃ new further, node.Meets arena.slot tables new ∧
      Open arena.slot tables tree { survey with pending := others } further new.marks := by
  have meets := walk.meets
  rw [waiting] at meets
  obtain ⟨new, further, here, behind, rfl⟩ := List.forall₂_cons_left_iff.mp meets
  refine ⟨new, further, here, walk.known, behind, ?_⟩
  intro other
  have sole := walk.sole other
  rw [List.map_cons, List.sum_cons] at sole
  simp only [seen, awaited] at sole ⊢
  omega

/-- A walk that is under way comes to its end.  The induction is on the number of slots not yet
reached and of nodes still to be visited. -/
theorem finish (size : Nat) : ∀ {survey : Survey} {trees : List Tree}, survey.weight ≤ size →
      Open arena.slot tables tree survey trees (fun _ => 0) →
      survey.finish arena.slots = .ok () := by
  induction size with
  | zero =>
      intro survey trees small walk
      rw [Survey.finish]
      split
      next => rfl
      next waiting =>
        rw [weight, waiting, List.length_cons] at small
        omega
  | succ size ih =>
      intro survey trees small walk
      rw [Survey.finish]
      split
      next => rfl
      next node others waiting =>
        obtain ⟨new, further, here, opened⟩ := walk.take waiting
        obtain ⟨reached, remaining, done, after⟩ := Open.visit here opened
        have lighter := weight_visit done
        split
        next fault failed =>
          rw [done] at failed
          cases failed
        next next visited =>
          rw [done] at visited
          cases visited
          refine ih ?_ after
          rw [weight, waiting, List.length_cons] at small
          simp only [weight] at lighter ⊢
          omega

end Open

end Survey

/-! ### Coherent forests pass -/

namespace Forest

variable {loose : Prop} {forest : Forest} {tables : Finset Table}

/-- The walk through the tables of a coherent forest finds nothing wrong. -/
theorem checkReachable_eq_ok (sound : Coherent loose forest tables) :
    checkReachable forest.arena.slots = .ok () := by
  obtain ⟨tree, laid⟩ := sound.laid
  have known : ∀ table ∈ tables,
      Visit.Meets forest.arena.slot tables ⟨table.slot, 0, 0⟩ (tree table) := by
    intro table member
    refine ⟨laid.node table member, laid.held table member,
      (laid.filed table member).mono fun _ => trivial, ?_⟩
    intro index referred
    exact ((sound.refers_le_one laid index).2
      (Finset.sum_pos_iff.mpr ⟨table, member, referred⟩)).1
  have start : Survey.Open forest.arena.slot tables tree (Survey.start forest.arena.slots.size)
      [tree root] fun _ => 0 := by
    refine ⟨known, .cons (known root sound.rooted) .nil, ?_⟩
    intro index
    have sole := sound.marks_le_one laid index
    have rest : Survey.awaited tables tree (Survey.start forest.arena.slots.size) index +
        (tree root).marks index ≤ ∑ table ∈ tables, (tree table).marks index := by
      have top : (Survey.start forest.arena.slots.size).seen root.slot = 1 :=
        (Survey.seen_start _ _).trans (if_pos (Or.inl rfl))
      rw [Survey.awaited, ← Finset.add_sum_erase tables _ sound.rooted,
        ← Finset.add_sum_erase tables _ sound.rooted, top, Nat.sub_self, Nat.zero_mul,
        Nat.zero_add, Nat.add_comm]
      apply Nat.add_le_add_left
      apply Finset.sum_le_sum
      intro table _
      exact Nat.le_trans (Nat.mul_le_mul_right _ (Nat.sub_le _ _)) (Nat.le_of_eq (Nat.one_mul _))
    rw [Survey.seen_start]
    simp only [List.map_cons, List.map_nil, List.sum_cons, List.sum_nil]
    omega
  exact start.finish _ (Nat.le_refl _)

/-- A table stands inside the arena, and there is no entry in its place. -/
theorem Standing.isEntry_slot {arena : Arena} {tree : Table → Tree} {table : Table}
    (laid : Standing loose arena tables tree) (member : table ∈ tables) :
    table.slot < arena.slots.size ∧ (arena.slot table.slot).isEntry = false := by
  have whole := laid.stands member
  refine ⟨whole.apart.lt_size, ?_⟩
  have held := whole.held
  obtain ⟨labels, run, children, shape⟩ := laid.exists_node member
  rw [shape] at held
  obtain ⟨spare, here⟩ := held.1
  rw [here]
  rfl

/-- Each slot passes by itself if it refers to what is there, and there are no entries where tables
are expected. -/
theorem checkSlots_of_fits {arena : Arena} {named : Finset Table} (sane : arena.Sane)
    (fits : ∀ index, (arena.slot index).Fits arena.slots.size named)
    (top : (arena.slot 0).isEntry = false)
    (nodes : ∀ table ∈ named,
      table.slot < arena.slots.size ∧ (arena.slot table.slot).isEntry = false) :
    checkSlots arena.slots = .ok () := by
  have top : (arena.slots.getD 0 Slot.empty).isEntry = false := top
  rw [checkSlots, top, if_neg Bool.false_ne_true]
  apply forM_eq_ok_iff.mpr
  rintro ⟨slot, index⟩ among
  obtain ⟨inside, same⟩ := List.mem_zipIdx' among
  rw [Array.getElem_toList] at same
  have content : arena.slot index = slot := by
    rw [Arena.slot_eq_getElem?, Array.getElem?_eq_getElem (by simpa using inside), same,
      Option.getD_some]
  have storable := sane.storable index
  have fits := fits index
  rw [content] at storable fits
  cases slot with
  | node labels run spare =>
      show (if _ then _ else _) = _
      rw [if_neg]
      obtain ⟨narrow, bounded⟩ := fits
      simp only [ge_iff_le, gt_iff_lt, Bool.or_eq_true, Bool.and_eq_true, decide_eq_true_eq]
      omega
  | entry key value nested =>
      show (if _ then _ else _) = _
      rw [if_neg (Nat.not_lt.mpr storable.1)]
      cases nested with
      | none => rfl
      | some table =>
          obtain ⟨below, isNode⟩ := nodes ⟨table⟩ (fits table rfl)
          have node : (arena.slots.getD table Slot.empty).isEntry = false := isNode
          exact if_pos (by rw [node, decide_eq_true below]; rfl)

/-- Each slot of a coherent forest passes by itself, whoever holds it, if nothing refers outside. -/
theorem checkSlots_eq_ok (sound : Coherent loose forest tables) (tidy : forest.arena.Tidy tables) :
    checkSlots forest.arena.slots = .ok () := by
  obtain ⟨tree, laid⟩ := sound.laid
  exact checkSlots_of_fits laid.sane tidy.fits (laid.isEntry_slot sound.rooted).2
    fun _ member => laid.isEntry_slot member

end Forest

end Lexicon

/-
Module: Lexicon.Proofs.Forest.Reinsertion
Layer: Proofs
Purpose: What it costs to erase the entry of a key and to store a value under the key again: nothing
  where the entry has no siblings or a run of their number is parked, and else a run of that length.
Imports: Lexicon.Proofs.Forest.Tiling
Trusted boundary: none
Main exports: Arena.insertChild_offered, Tree.Leads.graft, Forest.Lodged, Forest.Lodged.reinserted,
  Forest.Session.usedBytes_cycles
-/
import Lexicon.Proofs.Forest.Tiling

namespace Lexicon

/-!
When an entry is erased its siblings close the gap in place and the last slot of their run is given
back alone.  When the key comes back they all need a run of their full length again, and what was given
back is too short for it.  So an arena does not get back to where it was unless such a run happens to be
parked.  The key always comes back to the same node: the way to it does not depend on the entry.
-/

/-! ### Taking a run again -/

namespace Arena

variable {arena : Arena} {length : Nat}

/-- By how many slots an arena grows when a run is taken from it. -/
def cost (arena : Arena) (length : Nat) : Nat := if arena.freeRuns length = [] then length else 0

/-- A run is taken where the arena has room for what it costs, and then one run less is parked. -/
theorem alloc_offered (small : length < 33) (room : arena.slots.size + arena.cost length ≤ maxSlots) :
    ∃ offset next, arena.alloc length = (some offset, next) ∧
      next.slots.size = arena.slots.size + arena.cost length ∧
      next.freeRuns length = (arena.freeRuns length).tail := by
  unfold cost at room ⊢
  cases parked : arena.freeRuns length with
  | nil =>
      rw [parked, if_pos rfl] at room
      exact ⟨_, _, (Allocates.extended parked room).alloc_eq, by simp, parked⟩
  | cons offset others =>
      refine ⟨_, _, (Allocates.reused parked).alloc_eq, by simp, ?_⟩
      exact (freeRuns_setIfInBounds arena small others length).trans (if_pos rfl)

/-- A node gets one more child where the arena has room for the run. -/
theorem insertChild_offered {node run spare : Nat} {labels : LabelSet} {label : Label}
    (here : arena.slot node = .node labels run spare) (fresh : labels.contains label = false)
    (room : arena.slots.size + arena.cost (labels.size + 1) ≤ maxSlots) (child : Slot) :
    ∃ next, arena.insertChild node label child = (true, next) ∧
      next.slots.size = arena.slots.size + arena.cost (labels.size + 1) ∧
      next.freeRuns (labels.size + 1) = (arena.freeRuns (labels.size + 1)).tail := by
  have small : labels.size + 1 < 33 := Nat.succ_lt_succ (LabelSet.size_lt_of_lacking fresh)
  obtain ⟨offset, middle, taken, size, parked⟩ := alloc_offered small room
  rw [← size, ← parked]
  simp only [insertChild, here, Slot.labels, Slot.run, taken]
  rw [← giveBack, ← widen]
  refine ⟨_, rfl, by simp, ?_⟩
  unfold giveBack
  split
  next => rfl
  next =>
    show (release _ run labels.size).freeRuns (labels.size + 1) = _
    rw [freeRuns_release _ _ (by omega), if_neg (by omega)]
    rfl

/-- A node that loses a child gives back a single slot, and that is enough for the child to come back
only if it had no siblings. -/
theorem freeRuns_eraseChild {node run spare : Nat} {labels : LabelSet} {label : Label}
    (here : arena.slot node = .node labels run spare) :
    (arena.eraseChild node label).freeRuns labels.size =
      if labels.size = 1 then run :: arena.freeRuns 1 else arena.freeRuns labels.size := by
  simp only [eraseChild, here, Slot.labels, Slot.run, Slot.child]
  split
  next single =>
    show (arena.release run 1).freeRuns labels.size = _
    rw [freeRuns_release _ _ (by decide), if_pos single]
  next several =>
    show (release _ (run + labels.size - 1) 1).freeRuns labels.size = _
    rw [freeRuns_release _ _ (by decide), if_neg several]
    rfl

theorem size_eraseChild (arena : Arena) (node : Nat) (label : Label) :
    (arena.eraseChild node label).slots.size = arena.slots.size := by
  simp only [eraseChild]
  split <;> simp

end Arena

/-! ### The way back -/

namespace LabelSet

variable {labels : LabelSet} {label : Label}

/-- Nothing is left of a set when its only member is taken away. -/
theorem erase_eq_empty (member : labels.contains label = true) (single : labels.size = 1) :
    labels.erase label = empty := by
  apply ext_contains
  intro other
  rw [contains_empty, contains_erase]
  by_cases same : other = label
  · simp [same]
  · cases again : labels.contains other with
    | false => rfl
    | true => exact absurd (eq_of_single single again member) same

end LabelSet

namespace Tree

/-- A node without one of its children is a node without the child's label. -/
theorem exists_pruned {labels : LabelSet} {run : Nat} {children : Label → Tree} {label : Label}
    (member : labels.contains label = true) :
    ∃ runAfter childrenAfter,
      pruned labels run children label = .node (labels.erase label) runAfter childrenAfter := by
  unfold pruned
  split
  next single =>
    rw [LabelSet.erase_eq_empty member single]
    exact ⟨_, _, rfl⟩
  next => exact ⟨_, _, rfl⟩

end Tree

namespace Forest

section Descent

variable {arena : Arena} {key : Int32} {tree below : Tree}
  {level path index levelBelow pathBelow indexBelow : Nat}

/-- What a walk along the labels of a key does from the node to which they lead, it does from the
top. -/
theorem walk_of_leads {motive : (remaining level node : Nat) → Prop}
    (leads : Tree.Leads key below levelBelow pathBelow indexBelow tree level path index)
    (node : below.isNode = true) (held : tree.Holds arena.slot index)
    (shallow : levelBelow < levels)
    (step : ∀ {remaining level node child}, arena.Descends key level node child →
      (arena.slot child).isEntry = false → motive remaining (level + 1) child →
        motive (remaining + 1) level node)
    (ends : motive (levels - levelBelow) levelBelow indexBelow) :
    motive (levels - level) level index ∧ level ≤ levelBelow ∧ tree.isNode = true := by
  induction leads with
  | here => exact ⟨ends, Nat.le_refl _, node⟩
  | @down labels run children level path index member _ ih =>
      obtain ⟨further, deeper, isNode⟩ := ih (held.2.2 _)
      obtain ⟨inner, runInner, childrenInner, shape⟩ := Tree.exists_node_of_isNode isNode
      have heldChild : (Tree.node inner runInner childrenInner).Holds _ _ := shape ▸ held.2.2 _
      refine ⟨?_, by omega, rfl⟩
      rw [show levels - level = levels - (level + 1) + 1 by omega]
      exact step (held.descend member) heldChild.isEntry_eq_false further

theorem Stores.of_leads {value count : Nat} {answer : Except Error Unit} {forest : Forest}
    (leads : Tree.Leads key below levelBelow pathBelow indexBelow tree level path index)
    (node : below.isNode = true) (held : tree.Holds arena.slot index)
    (shallow : levelBelow < levels)
    (ends : Stores key value (levels - levelBelow) levelBelow indexBelow ⟨arena, count⟩ answer
      forest) :
    Stores key value (levels - level) level index ⟨arena, count⟩ answer forest :=
  (walk_of_leads
    (motive := fun remaining level node =>
      Stores key value remaining level node ⟨arena, count⟩ answer forest)
    leads node held shallow .descended ends).1

theorem Finds.of_leads {place : Place}
    (leads : Tree.Leads key below levelBelow pathBelow indexBelow tree level path index)
    (node : below.isNode = true) (held : tree.Holds arena.slot index)
    (shallow : levelBelow < levels)
    (ends : Finds arena key (levels - levelBelow) levelBelow indexBelow place) :
    Finds arena key (levels - level) level index place :=
  (walk_of_leads (motive := fun remaining level node => Finds arena key remaining level node place)
    leads node held shallow .descended ends).1

end Descent

/-! ### Erasing a key and storing it again -/

section Reinsertion

variable {loose : Prop} {forest : Forest} {arena after : Arena} {tables : Finset Table}
  {tree : Table → Tree} {table : Table} {key : Int32} {level path parent run : Nat}
  {labels : LabelSet} {children : Label → Tree}

/-- Tables stand in an arena, and the labels of a key lead from one of them to a node. -/
structure Leading (loose : Prop) (arena : Arena) (tables : Finset Table) (tree : Table → Tree)
    (table : Table) (key : Int32) (level path parent : Nat) (labels : LabelSet) (run : Nat)
    (children : Label → Tree) : Prop where
  standing : Standing loose arena tables tree
  member : table ∈ tables
  leads : Tree.Leads key (.node labels run children) level path parent (tree table) 0 0 table.slot

/-- Tables stand in an arena, and the entry of a key of one of them is a child of a node, which has
some labels. -/
def Lodged (loose : Prop) (arena : Arena) (tables : Finset Table) (table : Table) (key : Int32)
    (level parent : Nat) (labels : LabelSet) : Prop :=
  ∃ tree path run children value nested,
    Leading loose arena tables tree table key level path parent labels run children ∧
      labels.contains (Label.ofKey key level) = true ∧
      children (Label.ofKey key level) = .entry key value nested

namespace Leading

theorem whole (leading : Leading loose arena tables tree table key level path parent labels run
    children) : (tree table).Stands loose arena 0 0 table.slot :=
  leading.standing.stands leading.member

theorem stands (leading : Leading loose arena tables tree table key level path parent labels run
    children) : (Tree.node labels run children).Stands loose arena level path parent :=
  leading.leads.stands leading.whole

/-- When the node changes, the tables stand again, and the labels lead to what is there then. -/
theorem change {labelsAfter : LabelSet} {runAfter : Nat} {childrenAfter : Label → Tree}
    (leading : Leading loose arena tables tree table key level path parent labels run children)
    (change : Change arena after (.node labels run children)
      (.node labelsAfter runAfter childrenAfter) parent)
    (filed : (Tree.node labelsAfter runAfter childrenAfter).Filed loose level path) :
    ∃ grown, Leading loose after tables grown table key level path parent labelsAfter runAfter
      childrenAfter := by
  obtain ⟨changed, change, filed, leads, _⟩ := leading.leads.graft leading.whole change filed
  refine ⟨_, leading.standing.change leading.member change filed, leading.member, ?_⟩
  rw [Function.update_self]
  exact leads

/-- Erasing the entry below the node takes it away from there. -/
theorem erase_eq {value : Nat} {nested : Option Nat}
    (leading : Leading loose forest.arena tables tree table key level path parent labels run children)
    (known : labels.contains (Label.ofKey key level) = true)
    (entry : children (Label.ofKey key level) = .entry key value nested) :
    forest.erase table key =
      (true, ⟨forest.arena.eraseChild parent (Label.ofKey key level), forest.count - 1⟩) := by
  have standing := leading.stands
  have child := standing.held.2.2 (Label.ofKey key level)
  rw [entry] at child
  have located : forest.locate table key =
      some ⟨parent, run + labels.rank (Label.ofKey key level).val, level⟩ := by
    have shallow := standing.filed.shallow known
    have lodged : Finds forest.arena key (levels - level) level parent
        ⟨parent, run + labels.rank (Label.ofKey key level).val, level⟩ := by
      rw [show levels - level = levels - (level + 1) + 1 by omega]
      exact .here (standing.held.descend known) child
    exact (lodged.of_leads leading.leads rfl leading.whole.held shallow).locateFrom_eq
  rw [erase_of_located located]

/-- A value is stored below the node if its label is missing there and there is room for the run. -/
theorem put_eq {value : Nat} {next : Arena} (fits : value ≤ maxValue)
    (leading : Leading loose forest.arena tables tree table key level path parent labels run children)
    (shallow : level < levels) (fresh : labels.contains (Label.ofKey key level) = false)
    (inserted : forest.arena.insertChild parent (Label.ofKey key level) (.entry key value none) =
      (true, next)) :
    forest.put table key value = (.ok (), ⟨next, forest.count + 1⟩) := by
  have stored : Stores key value (levels - level) level parent ⟨forest.arena, forest.count⟩ (.ok ())
      ⟨next, forest.count + 1⟩ := by
    rw [show levels - level = levels - (level + 1) + 1 by omega]
    exact .inserted (leading.stands.held.parts.1.symm ▸ fresh) inserted
  exact (stored.of_leads leading.leads rfl leading.whole.held shallow).put_eq fits

end Leading

/-- An entry that is found is a child of the node that is found for it. -/
theorem lodged_of_locate {place : Place} (laid : Standing loose forest.arena tables tree)
    (member : table ∈ tables) (located : forest.locate table key = some place) :
    Lodged loose forest.arena tables table key place.level place.parent
      (forest.arena.slot place.parent).labels := by
  rcases laid.locate forest member key with ⟨nowhere, _⟩ | found
  · rw [nowhere] at located
    cases located
  · obtain ⟨_, labels, run, children, value, nested, path, again, found, _⟩ := found
    cases located.symm.trans again
    obtain ⟨⟨⟨spare, here⟩, _⟩, _, _⟩ := found.leads.stands (laid.stands member)
    rw [here]
    exact ⟨tree, path, run, children, value, nested, ⟨laid, member, found.leads⟩, found.member,
      found.entry⟩

/-- What erasing an entry and storing it again costs, by the number of children of its node. -/
def reinsertionCost (arena : Arena) (siblings : Nat) : Nat :=
  if siblings = 1 then 0 else arena.cost siblings

theorem cost_eraseChild {spare : Nat} (here : arena.slot parent = .node labels run spare)
    (label : Label) :
    (arena.eraseChild parent label).cost labels.size = reinsertionCost arena labels.size := by
  rw [Arena.cost, Arena.freeRuns_eraseChild here, reinsertionCost, Arena.cost]
  split
  next => rw [if_neg (List.cons_ne_nil _ _)]
  next => rfl

/-- An entry that is erased and stored again is a child of the same node again, with the same
siblings, if there is room for what that costs. -/
theorem Lodged.reinserted
    (lodged : Lodged loose forest.arena tables table key level parent labels) {value : Nat}
    (fits : value ≤ maxValue)
    (room : forest.slotCount + reinsertionCost forest.arena labels.size ≤ maxSlots) :
    ∃ erased after, forest.erase table key = (true, erased) ∧
      erased.put table key value = (.ok (), after) ∧
      Lodged loose after.arena tables table key level parent labels ∧
      after.slotCount = forest.slotCount + reinsertionCost forest.arena labels.size ∧
      (labels.size ≠ 1 → after.arena.freeRuns labels.size =
        (forest.arena.freeRuns labels.size).tail) := by
  obtain ⟨tree, path, run, children, old, nested, leading, known, entry⟩ := lodged
  obtain ⟨held, filed, apart⟩ := leading.stands
  have shallow := filed.shallow known
  obtain ⟨spare, here⟩ := held.1
  -- the node without the entry
  have pruning := change_pruned held apart entry
  have filedPruned : (Tree.pruned labels run children (Label.ofKey key level)).Filed loose level path :=
    filed.pruned shallow
  obtain ⟨runErased, childrenErased, shape⟩ : ∃ runErased childrenErased,
      Tree.pruned labels run children (Label.ofKey key level) =
        .node (labels.erase (Label.ofKey key level)) runErased childrenErased :=
    Tree.exists_pruned known
  rw [shape] at pruning filedPruned
  obtain ⟨treeErased, erased⟩ := leading.change pruning filedPruned
  obtain ⟨heldErased, filedErased, apartErased⟩ := erased.stands
  obtain ⟨spareErased, hereErased⟩ := heldErased.1
  -- the entry in it again
  have length := LabelSet.size_erase known
  have fresh : (labels.erase (Label.ofKey key level)).contains (Label.ofKey key level) = false :=
    LabelSet.contains_erase_self
  obtain ⟨next, inserted, size, parked⟩ := Arena.insertChild_offered hereErased fresh
    (by rw [length, cost_eraseChild here, Arena.size_eraseChild]; exact room) (.entry key value none)
  rw [length] at size parked
  obtain ⟨_, runAfter, insertion⟩ :=
    change_insertChild heldErased apartErased fresh ⟨fits, by simp⟩ inserted
  have filedEntry : (Tree.entry key value none).Filed loose (level + 1)
      (path + (Label.ofKey key level).val * Label.weight level) := by
    have before := filed.2 (Label.ofKey key level)
    rw [entry] at before
    exact before
  have filedAfter : (Tree.node ((labels.erase (Label.ofKey key level)).insert
      (Label.ofKey key level)) runAfter (Function.update childrenErased (Label.ofKey key level)
        (.entry key value none))).Filed loose level path :=
    ⟨Or.inl shallow, (filedErased.update filedEntry).2⟩
  rw [LabelSet.insert_erase known] at insertion filedAfter
  obtain ⟨treeAfter, last⟩ := erased.change insertion filedAfter
  refine ⟨_, _, leading.erase_eq known entry, Leading.put_eq fits erased shallow fresh inserted,
    ⟨treeAfter, path, runAfter, _, value, none, last, known, Function.update_self _ _ _⟩, ?_, ?_⟩
  · rw [slotCount, size, cost_eraseChild here, Arena.size_eraseChild]
    rfl
  · intro several
    rw [parked, Arena.freeRuns_eraseChild here, if_neg several]

end Reinsertion

/-! ### Many times -/

/-- What it costs to erase an entry and store it again some times, by the number of children of its
node: the first times use up the runs of that length that are parked. -/
def cyclesCost (arena : Arena) (siblings times : Nat) : Nat :=
  if siblings = 1 then 0 else siblings * (times - (arena.freeRuns siblings).length)

/-- The first time, and then the others. -/
theorem cyclesCost_succ {arena after : Arena} {siblings : Nat} (times : Nat)
    (parked : siblings ≠ 1 → after.freeRuns siblings = (arena.freeRuns siblings).tail) :
    cyclesCost arena siblings (times + 1) =
      reinsertionCost arena siblings + cyclesCost after siblings times := by
  unfold cyclesCost reinsertionCost
  by_cases single : siblings = 1
  · rw [if_pos single, if_pos single, if_pos single]
  · rw [if_neg single, if_neg single, if_neg single, parked single, Arena.cost]
    cases arena.freeRuns siblings with
    | nil => simp [Nat.mul_succ, Nat.add_comm]
    | cons first others => simp

theorem reinsertionCost_le (arena : Arena) (siblings times : Nat) :
    reinsertionCost arena siblings ≤ cyclesCost arena siblings (times + 1) := by
  unfold cyclesCost reinsertionCost Arena.cost
  split
  next => exact Nat.le_refl _
  next =>
    split
    next none =>
      rw [none]
      exact Nat.le_mul_of_pos_right _ (by simp)
    next => exact Nat.zero_le _

namespace Session

/-- Erases a key and stores a value under it again, once for each value. -/
def cycles (table : Nat) (key : Int32) (values : List Nat) : List Request :=
  values.flatMap fun value => [.erase table key, .put table key value]

/-- A cycle whose two requests are served comes before the others. -/
theorem run_cycles_cons {forest erased after : Forest} {handles : List Table} {number : Nat}
    {key : Int32} {value : Nat}
    (erasure : forest.erase (table ⟨forest, handles⟩ number) key = (true, erased))
    (stored : erased.put (table ⟨forest, handles⟩ number) key value = (.ok (), after))
    (values : List Nat) :
    run ⟨forest, handles⟩ (cycles number key (value :: values)) =
      (.holds true :: .stored (.ok ()) :: (run ⟨after, handles⟩ (cycles number key values)).1,
        (run ⟨after, handles⟩ (cycles number key values)).2) := by
  have first : Session.step ⟨forest, handles⟩ (.erase number key) =
      (.holds true, ⟨erased, handles⟩) := by
    simp only [Session.step, erasure]
  have second : Session.step ⟨erased, handles⟩ (.put number key value) =
      (.stored (.ok ()), ⟨after, handles⟩) := by
    simp only [Session.step]
    rw [show table ⟨erased, handles⟩ number = table ⟨forest, handles⟩ number from rfl, stored]
  rw [cycles, List.flatMap_cons, ← cycles]
  simp only [List.cons_append, List.nil_append, run, first, second]

/-- Every cycle is served, and an entry stays a child of the same node.  The induction is on the
cycles that are left. -/
theorem run_cycles {loose : Prop} {tables : Finset Table} (handles : List Table) {number : Nat}
    {key : Int32} {level parent : Nat} {labels : LabelSet} (values : List Nat)
    (fits : ∀ value ∈ values, value ≤ maxValue) : ∀ {forest : Forest},
    Lodged loose forest.arena tables (table ⟨forest, handles⟩ number) key level parent labels →
    forest.slotCount + cyclesCost forest.arena labels.size values.length ≤ maxSlots →
    (run ⟨forest, handles⟩ (cycles number key values)).1 =
        values.flatMap (fun _ => [.holds true, .stored (.ok ())]) ∧
      (run ⟨forest, handles⟩ (cycles number key values)).2.forest.slotCount =
        forest.slotCount + cyclesCost forest.arena labels.size values.length := by
  induction values with
  | nil =>
      intro forest _ _
      refine ⟨rfl, ?_⟩
      unfold cyclesCost
      split <;> simp [cycles, Session.run]
  | cons value values ih =>
      intro forest lodged room
      obtain ⟨small, rest⟩ := List.forall_mem_cons.mp fits
      rw [List.length_cons] at room ⊢
      have least := reinsertionCost_le forest.arena labels.size values.length
      obtain ⟨erased, after, erasure, stored, lodged, size, parked⟩ :=
        lodged.reinserted small (by omega)
      rw [cyclesCost_succ values.length parked] at room ⊢
      obtain ⟨replies, grown⟩ := ih rest lodged (by omega)
      rw [run_cycles_cons erasure stored]
      refine ⟨?_, ?_⟩
      · rw [List.flatMap_cons, replies]
        rfl
      · rw [grown, size, Nat.add_assoc]

/-- After any requests to a new forest, a key that is present may be erased and stored again any number
of times.  That is served every time there is room for it, and the bytes that are used afterwards are
known exactly: nothing is lost when the entry has no siblings, and else as many runs for all siblings
as there were times, less those of that length that were parked before. -/
theorem usedBytes_cycles (requests : List Request) {number : Nat} {key : Int32} {values : List Nat}
    {place : Place} (fits : ∀ value ∈ values, value ≤ maxValue)
    (present : (start.run requests).2.forest.locate ((start.run requests).2.table number) key =
      some place)
    (room : (start.run requests).2.forest.slotCount +
      cyclesCost (start.run requests).2.forest.arena
        ((start.run requests).2.forest.arena.slot place.parent).labels.size values.length ≤
          maxSlots) :
    ((start.run requests).2.run (cycles number key values)).1 =
        values.flatMap (fun _ => [.holds true, .stored (.ok ())]) ∧
      ((start.run requests).2.run (cycles number key values)).2.forest.usedBytes =
        (start.run requests).2.forest.usedBytes +
          cyclesCost (start.run requests).2.forest.arena
            ((start.run requests).2.forest.arena.slot place.parent).labels.size values.length *
              Slot.byteSize := by
  obtain ⟨last, reflects⟩ := mirrors_start.toReflects.run requests
  obtain ⟨tree, laid⟩ := reflects.sound.laid
  have member := table_mem reflects.sound.rooted number
  obtain ⟨replies, grown⟩ :=
    run_cycles (start.run requests).2.handles values fits
      (lodged_of_locate laid member present) room
  refine ⟨replies, ?_⟩
  rw [usedBytes, usedBytes, ← Nat.add_mul]
  exact congrArg (· * Slot.byteSize) grown

/-- Three keys are stored side by side, and the last of them is erased: a run of two is parked. -/
def crowding : List Request := [.put 0 0 0, .put 0 1 1, .put 0 2 2, .erase 0 2]

/-- The first of three cycles takes the parked run, and each of the others costs two slots. -/
theorem usedBytes_cycles_crowding :
    (∀ value ∈ [5, 6, 7], value ≤ maxValue) ∧
      (start.run crowding).2.forest.locate ((start.run crowding).2.table 0) 1 = some ⟨0, 5, 0⟩ ∧
      (start.run crowding).2.forest.usedBytes = 112 ∧
      ((start.run crowding).2.run (cycles 0 1 [5, 6, 7])).1 =
        [.holds true, .stored (.ok ()), .holds true, .stored (.ok ()), .holds true,
          .stored (.ok ())] ∧
      ((start.run crowding).2.run (cycles 0 1 [5, 6, 7])).2.forest.usedBytes = 112 + 4 * 16 := by
  have fits : ∀ value ∈ [5, 6, 7], value ≤ maxValue := by decide
  have present : (start.run crowding).2.forest.locate ((start.run crowding).2.table 0) 1 =
      some ⟨0, 5, 0⟩ := by decide +kernel
  have used : (start.run crowding).2.forest.usedBytes = 112 := by decide +kernel
  have cost : cyclesCost (start.run crowding).2.forest.arena
      ((start.run crowding).2.forest.arena.slot 0).labels.size 3 = 4 := by decide +kernel
  have slots : (start.run crowding).2.forest.slotCount = 7 := by decide +kernel
  obtain ⟨replies, grown⟩ := usedBytes_cycles crowding fits present (by
    show _ + cyclesCost _ _ 3 ≤ _
    rw [cost, slots]
    decide)
  refine ⟨fits, present, used, replies, ?_⟩
  rw [grown, used]
  show 112 + cyclesCost _ _ 3 * 16 = _
  rw [cost]

/-- A key that is erased and stored again right away can make the arena larger: where two keys stand
side by side, the two slots that the second one left behind do not make a run of two. -/
theorem usedBytes_reinserted :
    let session := (start.run [.put 0 0 0, .put 0 1 1]).2
    session.forest.contains (session.table 0) 1 = true ∧
      session.forest.usedBytes = 64 ∧
      (session.run [.erase 0 1, .put 0 1 1]).2.forest.usedBytes = 96 := by
  decide +kernel

end Session

end Forest

end Lexicon

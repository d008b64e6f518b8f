/-
Module: Lexicon.Proofs.Forest.Bounds
Layer: Proofs
Purpose: No operation on a coherent forest uses a slot outside of its arena.
Imports: Lexicon.Proofs.Forest.Soundness
Trusted boundary: none
Main exports: Arena.Checked, Forest.Checked, Arena.Anchored, Forest.Coherent.checked_put,
  Forest.Coherent.checked_erase, Forest.Coherent.checked_createNested
-/
import Lexicon.Proofs.Forest.Soundness

namespace Lexicon

/-!
Outside of an arena there are empty nodes to be read, and nothing to be written.  That no operation
depends on this is shown by doing the same with checks: each operation has a checked form, which has
no result when it uses a slot outside of the arena, or copies a run that does not lie in it.  On a
coherent forest it has the result of the operation itself.
-/

/-! ### Checked forms -/

namespace Arena.Checked

/-- The content of a slot of the arena. -/
def slot (arena : Arena) (index : Nat) : Option Slot := arena.slots[index]?

/-- Replaces the content of a slot of the arena. -/
def write (arena : Arena) (index : Nat) (slot : Slot) : Option Arena :=
  if index < arena.slots.size then some (arena.write index slot) else none

/-- Copies a run of the arena to another place in it; both have to lie in it, also if they are
empty. -/
def copy (arena : Arena) (source target count : Nat) : Option Arena :=
  if source + count ≤ arena.slots.size ∧ target + count ≤ arena.slots.size then
    some (arena.copy source target count)
  else none

/-- Gives a node one more child. -/
def insertChild (arena : Arena) (node : Nat) (label : Label) (child : Slot) :
    Option (Bool × Arena) := do
  let parent ← slot arena node
  let place := parent.labels.rank label.val
  let length := parent.labels.size
  match arena.alloc (length + 1) with
  | (none, arena) => some (false, arena)
  | (some run, arena) =>
      let arena ← copy arena parent.run run place
      let arena ← write arena (run + place) child
      let arena ← copy arena (parent.run + place) (run + place + 1) (length - place)
      let arena := if length = 0 then arena else arena.release parent.run length
      let arena ← write arena node (.node (parent.labels.insert label) run 0)
      some (true, arena)

/-- Takes the child under one of a node's labels away. -/
def eraseChild (arena : Arena) (node : Nat) (label : Label) : Option Arena := do
  let parent ← slot arena node
  let length := parent.labels.size
  if length = 1 then
    write (arena.release parent.run 1) node Slot.empty
  else
    let place := parent.child label
    let last := parent.run + length - 1
    let arena ← copy arena (place + 1) place (last - place)
    write (arena.release last 1) node (.node (parent.labels.erase label) parent.run 0)

/-- Puts a node in the place of an entry and the entry below it. -/
def pushDown (arena : Arena) (index level : Nat) (key : Int32) (entry : Slot) :
    Option (Bool × Arena) :=
  match arena.alloc 1 with
  | (none, arena) => some (false, arena)
  | (some run, arena) => do
      let arena ← write arena run entry
      let label := Label.ofKey key (level + 1)
      let arena ← write arena index (.node (LabelSet.singleton label) run 0)
      some (true, arena)

end Arena.Checked

namespace Forest.Checked

open Arena.Checked (slot)

/-- Follows the labels of a key downwards from a node. -/
def locateFrom (arena : Arena) (key : Int32) :
    (remaining level node : Nat) → Option (Option Place)
  | 0, _, _ => some none
  | remaining + 1, level, node => do
      let parent ← slot arena node
      let label := Label.ofKey key level
      if parent.labels.contains label then
        let index := parent.child label
        match ← slot arena index with
        | .entry found _ _ =>
            some (if found = key then some { parent := node, slot := index, level := level }
              else none)
        | .node .. => locateFrom arena key remaining (level + 1) index
      else
        some none

/-- The place of a key's entry in a table. -/
def locate (forest : Forest) (table : Table) (key : Int32) : Option (Option Place) :=
  locateFrom forest.arena key levels 0 table.slot

/-- The value that a table holds under a key. -/
def get? (forest : Forest) (table : Table) (key : Int32) : Option (Option Nat) := do
  match ← locate forest table key with
  | none => some none
  | some place =>
      match ← slot forest.arena place.slot with
      | .entry _ value _ => some (some value)
      | .node .. => some none

/-- Whether a table has a key. -/
def contains (forest : Forest) (table : Table) (key : Int32) : Option Bool :=
  (locate forest table key).map Option.isSome

/-- The table nested below a key. -/
def nested? (forest : Forest) (table : Table) (key : Int32) : Option (Option Table) := do
  match ← locate forest table key with
  | none => some none
  | some place =>
      match ← slot forest.arena place.slot with
      | .entry _ _ nested => some (nested.map Table.mk)
      | .node .. => some none

/-- Stores a value under a key, from a node downwards. -/
def putFrom (key : Int32) (value : Nat) :
    (remaining level node : Nat) → Forest → Option (Except Error Unit × Forest)
  | 0, _, _, forest => some (.error (.format (.keyTooDeep key)), forest)
  | remaining + 1, level, node, ⟨arena, count⟩ => do
      let parent ← slot arena node
      let label := Label.ofKey key level
      if parent.labels.contains label then
        let index := parent.child label
        match ← slot arena index with
        | .node .. => putFrom key value remaining (level + 1) index ⟨arena, count⟩
        | .entry resident old nested =>
            if resident = key then
              let arena ← Arena.Checked.write arena index (.entry key value nested)
              some (.ok (), ⟨arena, count⟩)
            else if remaining = 0 then
              some (.error (.format (.keyTooDeep key)), ⟨arena, count⟩)
            else
              match ← Arena.Checked.pushDown arena index level resident
                (.entry resident old nested) with
              | (false, arena) => some (.error .forestFull, ⟨arena, count⟩)
              | (true, arena) => putFrom key value remaining (level + 1) index ⟨arena, count⟩
      else
        match ← Arena.Checked.insertChild arena node label (.entry key value none) with
        | (false, arena) => some (.error .forestFull, ⟨arena, count⟩)
        | (true, arena) => some (.ok (), ⟨arena, count + 1⟩)

/-- Stores a value under a key. -/
def put (forest : Forest) (table : Table) (key : Int32) (value : Nat) :
    Option (Except Error Unit × Forest) :=
  if value > maxValue then
    some (.error (.valueOutOfRange value valueBits), forest)
  else
    putFrom key value levels 0 table.slot forest

/-- Takes a key out of a table. -/
def erase (forest : Forest) (table : Table) (key : Int32) : Option (Bool × Forest) := do
  match ← locate forest table key with
  | none => some (false, forest)
  | some place =>
      let arena ← Arena.Checked.eraseChild forest.arena place.parent (Label.ofKey key place.level)
      some (true, ⟨arena, forest.count - 1⟩)

/-- The table nested below a key, created empty if there is none yet. -/
def createNested? (forest : Forest) (table : Table) (key : Int32) :
    Option (Option Table × Forest) := do
  match ← locate forest table key with
  | none => some (none, forest)
  | some place =>
      match ← slot forest.arena place.slot with
      | .node .. => some (none, forest)
      | .entry _ _ (some nested) => some (some ⟨nested⟩, forest)
      | .entry found value none =>
          match forest.arena.alloc 1 with
          | (none, arena) => some (none, ⟨arena, forest.count⟩)
          | (some nested, arena) =>
              let arena ← Arena.Checked.write arena nested Slot.empty
              let arena ← Arena.Checked.write arena place.slot (.entry found value (some nested))
              some (some ⟨nested⟩, ⟨arena, forest.count⟩)

/-- The entries at and below a slot. -/
def entriesFrom (arena : Arena) : (remaining index : Nat) → Option (List Entry)
  | remaining, index => do
      match ← slot arena index with
      | .entry key value nested =>
          some [{ key := key, value := value, nested := nested.map Table.mk }]
      | .node labels run _ =>
          match remaining with
          | 0 => some []
          | remaining + 1 =>
              let lists ← (List.range labels.size).mapM fun place =>
                entriesFrom arena remaining (run + place)
              some lists.flatten

/-- The entries of a table. -/
def entries (forest : Forest) (table : Table) : Option (List Entry) :=
  entriesFrom forest.arena levels table.slot

end Forest.Checked

/-! ### Runs of empty nodes -/

namespace Arena

/-- Also the run of a node without labels, where there is nothing, begins in the arena or at its
end. -/
def Anchored (arena : Arena) : Prop :=
  ∀ index, (arena.slot index).labels.size = 0 → (arena.slot index).run ≤ arena.slots.size

namespace Anchored

variable {arena next : Arena}

/-- It is enough to look at the slots of the arena. -/
theorem of_slots
    (each : ∀ slot ∈ arena.slots, slot.labels.size = 0 → slot.run ≤ arena.slots.size) :
    arena.Anchored := by
  intro index
  rw [slot_eq_getElem?]
  cases here : arena.slots[index]? with
  | none => exact fun _ => Nat.zero_le _
  | some slot => exact each slot (Array.mem_of_getElem? here)

theorem write (anchored : arena.Anchored) {slot : Slot} {index : Nat}
    (inside : index < arena.slots.size)
    (here : slot.labels.size = 0 → slot.run ≤ arena.slots.size) :
    (arena.write index slot).Anchored := by
  intro other
  rw [slot_write inside, size_write]
  split
  next => exact here
  next => exact anchored other

theorem write_entry (anchored : arena.Anchored) {index : Nat} (inside : index < arena.slots.size)
    (key : Int32) (value : Nat) (nested : Option Nat) :
    (arena.write index (.entry key value nested)).Anchored :=
  anchored.write inside fun _ => Nat.zero_le _

theorem copy (anchored : arena.Anchored) {source target count : Nat}
    (inside : target + count ≤ arena.slots.size) : (arena.copy source target count).Anchored := by
  induction count generalizing arena source target with
  | zero => exact anchored
  | succ count ih =>
      rw [copy_succ]
      exact ih (anchored.write (by omega) (anchored source)) (by rw [size_write]; omega)

theorem release (anchored : arena.Anchored) (offset length : Nat) :
    (arena.release offset length).Anchored := by
  intro index
  rw [slot_release, size_release]
  exact anchored index

theorem giveBack (anchored : arena.Anchored) (run length : Nat) :
    (arena.giveBack run length).Anchored := by
  rw [Arena.giveBack]
  split
  next => exact anchored
  next => exact anchored.release run length

theorem taken (anchored : arena.Anchored) {length offset : Nat}
    (taken : Taken arena length offset next) : next.Anchored := by
  intro index none
  rw [taken.content] at none ⊢
  exact Nat.le_trans (anchored index none) taken.grows

/-- A wider copy of a run with a new entry in it. -/
theorem widen (anchored : arena.Anchored) {old new length place : Nat} (ordered : place ≤ length)
    (fits : new + length < arena.slots.size) (key : Int32) (value : Nat) (nested : Option Nat) :
    (arena.widen old new length place (.entry key value nested)).Anchored := by
  have copied : (arena.copy old new place).Anchored := anchored.copy (by omega)
  have inside : new + place < (arena.copy old new place).slots.size := by
    rw [size_copy]
    omega
  refine (copied.write_entry inside key value nested).copy ?_
  rw [size_write, size_copy]
  omega

end Anchored

/-! ### Checks that succeed -/

section Checks

variable {arena : Arena} {index : Nat}

theorem checked_slot (inside : index < arena.slots.size) :
    Checked.slot arena index = some (arena.slot index) := by
  rw [Checked.slot, slot_eq_getElem?, Array.getElem?_eq_getElem inside]
  rfl

theorem checked_write (inside : index < arena.slots.size) (slot : Slot) :
    Checked.write arena index slot = some (arena.write index slot) :=
  if_pos inside

theorem checked_copy {source target count : Nat} (inside : source + count ≤ arena.slots.size)
    (fits : target + count ≤ arena.slots.size) :
    Checked.copy arena source target count = some (arena.copy source target count) :=
  if_pos ⟨inside, fits⟩

end Checks

end Arena

section Nodes

variable {arena : Arena} {index run : Nat} {labels : LabelSet} {children : Label → Tree}

/-- The run of a node lies in the arena, also if it is empty. -/
theorem fits_of_anchored (anchored : arena.Anchored)
    (held : (Tree.node labels run children).Holds arena.slot index)
    (apart : (Tree.node labels run children).Apart arena index) :
    run + labels.size ≤ arena.slots.size := by
  obtain ⟨sameLabels, sameRun⟩ := held.parts
  rcases Nat.eq_zero_or_pos labels.size with none | some
  · have begins := anchored index
    rw [sameLabels, sameRun] at begins
    exact none ▸ begins none
  · have begins : run ≤ run + labels.size - 1 := by omega
    have last := (apart.inRun begins (by omega)).inside
    omega

/-- Giving a node a child that is an entry uses no slot outside of the arena. -/
theorem Arena.checked_insertChild (anchored : arena.Anchored)
    (held : (Tree.node labels run children).Holds arena.slot index)
    (apart : (Tree.node labels run children).Apart arena index) {label : Label}
    (fresh : labels.contains label = false) (key : Int32) (value : Nat) (nested : Option Nat) :
    Checked.insertChild arena index label (.entry key value nested) =
        some (arena.insertChild index label (.entry key value nested)) ∧
      (arena.insertChild index label (.entry key value nested)).2.Anchored := by
  have fits := fits_of_anchored anchored held apart
  have inside := apart.lt_size
  obtain ⟨sameLabels, sameRun⟩ := held.parts
  have narrow : labels.size + 1 < 33 := Nat.succ_lt_succ (LabelSet.size_lt_of_lacking fresh)
  have placed : labels.rank label.val ≤ labels.size := labels.rank_mono (Nat.le_of_lt label.isLt)
  rw [Checked.insertChild, Arena.insertChild, checked_slot inside, Option.bind_eq_bind,
    Option.bind_some]
  dsimp only
  rw [sameLabels, sameRun]
  cases allocated : arena.alloc (labels.size + 1) with
  | mk answer middle =>
  cases answer with
  | none =>
      refine ⟨rfl, ?_⟩
      rw [(alloc_none allocated).1]
      exact anchored
  | some new =>
      have taken := alloc_taken narrow allocated
      have grows := taken.grows
      obtain ⟨_, wide, _, _, insideMiddle⟩ := taken.clear apart.sole
      dsimp only
      rw [checked_copy (by omega) (by omega), Option.bind_eq_bind, Option.bind_some,
        checked_write (by rw [size_copy]; omega), Option.bind_some,
        checked_copy (by rw [size_write, size_copy]; omega) (by rw [size_write, size_copy]; omega),
        Option.bind_some, ← Arena.widen, ← Arena.giveBack]
      have moved : (middle.widen run new labels.size (labels.rank label.val)
          (.entry key value nested)).Anchored :=
        (anchored.taken taken).widen placed wide key value nested
      have insideWide : index < ((middle.widen run new labels.size (labels.rank label.val)
          (.entry key value nested)).giveBack run labels.size).slots.size := by
        rw [size_giveBack, size_widen]
        exact insideMiddle
      rw [checked_write insideWide, Option.bind_some]
      refine ⟨rfl, (moved.giveBack run labels.size).write insideWide fun none => ?_⟩
      have grown := LabelSet.size_insert fresh
      simp only [Slot.labels] at none
      omega

/-- Taking a child away from a node uses no slot outside of the arena. -/
theorem Arena.checked_eraseChild (anchored : arena.Anchored)
    (held : (Tree.node labels run children).Holds arena.slot index)
    (apart : (Tree.node labels run children).Apart arena index) {label : Label}
    (member : labels.contains label = true) :
    Checked.eraseChild arena index label = some (arena.eraseChild index label) ∧
      (arena.eraseChild index label).Anchored := by
  have fits := fits_of_anchored anchored held apart
  have inside := apart.lt_size
  have placed := LabelSet.rank_lt_size member
  obtain ⟨sameLabels, sameRun⟩ := held.parts
  rw [Checked.eraseChild, Arena.eraseChild, checked_slot inside, Option.bind_eq_bind,
    Option.bind_some, Slot.child]
  dsimp only
  rw [sameLabels, sameRun]
  split
  next =>
    have kept : index < (arena.release run 1).slots.size := by
      rw [size_release]
      exact inside
    rw [checked_write kept]
    exact ⟨rfl, (anchored.release run 1).write kept fun _ => Nat.zero_le _⟩
  next =>
    have moved : (arena.closeGap run labels.size (labels.rank label.val)).Anchored :=
      (anchored.copy (by omega)).release _ _
    have size := arena.size_closeGap run labels.size (labels.rank label.val)
    have copied : Checked.copy arena (run + labels.rank label.val + 1) (run + labels.rank label.val)
        (labels.size - 1 - labels.rank label.val) = some _ := checked_copy (by omega) (by omega)
    have tail : run + labels.size - 1 - (run + labels.rank label.val) =
        labels.size - 1 - labels.rank label.val := by omega
    have insideLeft : index < (arena.closeGap run labels.size (labels.rank label.val)).slots.size :=
      size ▸ inside
    rw [tail, copied, Option.bind_eq_bind, Option.bind_some, ← Arena.closeGap,
      checked_write insideLeft]
    refine ⟨rfl, moved.write insideLeft fun _ => ?_⟩
    rw [size]
    exact Nat.le_trans (Nat.le_add_right run labels.size) fits

end Nodes

/-- Pushing an entry down uses no slot outside of the arena. -/
theorem Arena.checked_pushDown {arena : Arena} {index : Nat} {key : Int32} {value : Nat}
    {nested : Option Nat} (anchored : arena.Anchored)
    (apart : (Tree.entry key value nested).Apart arena index) (level : Nat) :
    Checked.pushDown arena index level key (.entry key value nested) =
        some (arena.pushDown index level key (.entry key value nested)) ∧
      (arena.pushDown index level key (.entry key value nested)).2.Anchored := by
  have inside := apart.lt_size
  rw [Checked.pushDown, Arena.pushDown]
  cases allocated : arena.alloc 1 with
  | mk answer next =>
  cases answer with
  | none =>
      refine ⟨rfl, ?_⟩
      rw [(alloc_none allocated).1]
      exact anchored
  | some new =>
      have taken := alloc_taken (by decide) allocated
      have insideNext : index < next.slots.size := Nat.lt_of_lt_of_le inside taken.grows
      have fits : new < next.slots.size := by
        apply lt_size_of_available
        have supply := taken.available new
        have sole := apart new
        rw [covers_self] at supply
        omega
      have insideWritten : index < (next.write new (.entry key value nested)).slots.size := by
        rw [size_write]
        exact insideNext
      dsimp only
      rw [checked_write fits, Option.bind_eq_bind, Option.bind_some, checked_write insideWritten,
        Option.bind_some]
      refine ⟨rfl, ((anchored.taken taken).write_entry fits _ _ _).write insideWritten fun _ => ?_⟩
      rw [size_write]
      exact Nat.le_of_lt fits

namespace Forest

/-! ### Operations below a node -/

section Below

variable {arena : Arena}

/-- Following the labels of a key uses no slot outside of the arena. -/
theorem checked_locateFrom (key : Int32) (remaining : Nat) :
    ∀ {level index run : Nat} {labels : LabelSet} {children : Label → Tree},
      (Tree.node labels run children).Holds arena.slot index →
      (Tree.node labels run children).Apart arena index →
      Checked.locateFrom arena key remaining level index =
        some (locateFrom arena key remaining level index) := by
  induction remaining with
  | zero => exact fun _ _ => rfl
  | succ remaining ih =>
      intro level index run labels children held apart
      rw [Checked.locateFrom, locateFrom, Arena.checked_slot apart.lt_size, Option.bind_eq_bind,
        Option.bind_some]
      dsimp only
      rw [held.parts.1, held.child]
      split
      next member =>
        have below := held.2.2 (Label.ofKey key level)
        have known := held.2.1 (Label.ofKey key level)
        have apartBelow := apart.child member
        rw [Arena.checked_slot apartBelow.lt_size, Option.bind_some]
        cases shape : children (Label.ofKey key level) with
        | absent =>
            rw [shape, member] at known
            cases known
        | entry resident value nested =>
            rw [shape] at below
            rw [show arena.slot _ = .entry resident value nested from below]
        | node labelsBelow runBelow childrenBelow =>
            rw [shape] at below apartBelow
            obtain ⟨spare, here⟩ := below.1
            rw [here]
            exact ih below apartBelow
      next => rfl

/-- Storing a value uses no slot outside of the arena.  A node that was just made for an entry in the
way is one like any other. -/
theorem Stores.checked {key : Int32} {value remaining level index run : Nat} {labels : LabelSet}
    {children : Label → Tree} {forest after : Forest} {answer : Except Error Unit}
    (stores : Stores key value remaining level index forest answer after)
    (anchored : forest.arena.Anchored)
    (held : (Tree.node labels run children).Holds forest.arena.slot index)
    (apart : (Tree.node labels run children).Apart forest.arena index) :
    Checked.putFrom key value remaining level index forest = some (answer, after) ∧
      after.arena.Anchored := by
  induction stores generalizing run labels children with
  | bottom => exact ⟨rfl, anchored⟩
  | refused missing insertion | inserted missing insertion =>
      obtain ⟨same, anchoredAfter⟩ := Arena.checked_insertChild anchored held apart
        (held.parts.1 ▸ missing) key value none
      rw [insertion] at same anchoredAfter
      simp [Checked.putFrom, Arena.checked_slot apart.lt_size, missing, same, anchoredAfter]
  | replaced step here =>
      obtain ⟨member, same⟩ := held.descends step
      have inside := same ▸ (apart.child member).lt_size
      refine ⟨?_, anchored.write_entry inside _ _ _⟩
      simp [Checked.putFrom, Arena.checked_slot apart.lt_size, step.member, step.child,
        Arena.checked_slot inside, here, Arena.checked_write inside]
  | clashed step here differ =>
      obtain ⟨member, same⟩ := held.descends step
      have inside := same ▸ (apart.child member).lt_size
      simp [Checked.putFrom, Arena.checked_slot apart.lt_size, step.member, step.child,
        Arena.checked_slot inside, here, differ, anchored]
  | blocked step here differ pushing =>
      obtain ⟨member, rfl⟩ := held.descends step
      have below := apart.child member
      have inside := below.lt_size
      rw [held.child_eq_entry member here] at below
      obtain ⟨same, anchoredAfter⟩ := Arena.checked_pushDown anchored below _
      rw [pushing] at same anchoredAfter
      simp [Checked.putFrom, Arena.checked_slot apart.lt_size, step.member, step.child,
        Arena.checked_slot inside, here, differ, same, anchoredAfter]
  | pushed step here differ pushing _ ih =>
      obtain ⟨member, rfl⟩ := held.descends step
      have below := apart.child member
      have inside := below.lt_size
      rw [held.child_eq_entry member here] at below
      obtain ⟨same, anchoredAfter⟩ := Arena.checked_pushDown anchored below _
      rw [pushing] at same anchoredAfter
      obtain ⟨_, _, change⟩ := change_pushDown here below pushing
      obtain ⟨further, anchoredLast⟩ := ih anchoredAfter change.held (change.apart below)
      rw [Checked.putFrom]
      simp [Arena.checked_slot apart.lt_size, step.member, step.child, Arena.checked_slot inside,
        here, differ, same, further, anchoredLast]
  | descended step inner _ ih =>
      obtain ⟨member, rfl⟩ := held.descends step
      have below := apart.child member
      have inside := below.lt_size
      obtain ⟨labelsBelow, runBelow, childrenBelow, shape⟩ := held.child_eq_node member inner
      have heldBelow : (Tree.node labelsBelow runBelow childrenBelow).Holds _ _ :=
        shape ▸ held.2.2 _
      rw [shape] at below
      obtain ⟨spare, here⟩ := heldBelow.1
      rw [Checked.putFrom]
      simp [Arena.checked_slot apart.lt_size, step.member, step.child, Arena.checked_slot inside,
        here, ih anchored heldBelow below]

/-- Where each of some items has a result, all of them have. -/
theorem mapM_eq_some {α β : Type} {items : List α} {visit : α → Option β} {result : α → β}
    (each : ∀ item ∈ items, visit item = some (result item)) :
    items.mapM visit = some (items.map result) := by
  induction items with
  | nil => rfl
  | cons item items ih =>
      rw [List.mapM_cons, each item List.mem_cons_self,
        ih fun other member => each other (List.mem_cons_of_mem item member)]
      rfl

/-- Listing uses no slot outside of the arena. -/
theorem checked_entriesFrom (remaining : Nat) :
    ∀ {index : Nat} {tree : Tree}, tree.Holds arena.slot index → tree.Apart arena index →
      tree.present = true →
      Checked.entriesFrom arena remaining index = some (entriesFrom arena remaining index) := by
  induction remaining with
  | zero =>
      intro index tree held apart present
      rw [Checked.entriesFrom, entriesFrom, Arena.checked_slot apart.lt_size, Option.bind_eq_bind,
        Option.bind_some]
      cases arena.slot index with
      | entry => rfl
      | node => rfl
  | succ remaining ih =>
      intro index tree held apart present
      rw [Checked.entriesFrom, entriesFrom, Arena.checked_slot apart.lt_size, Option.bind_eq_bind,
        Option.bind_some]
      cases tree with
      | absent => cases present
      | entry key value nested => rw [show arena.slot index = .entry key value nested from held]
      | node labels run children =>
          obtain ⟨⟨spare, here⟩, known, below⟩ := held
          rw [here]
          dsimp only
          have each : ∀ place ∈ List.range labels.size,
              Checked.entriesFrom arena remaining (run + place) =
                some (entriesFrom arena remaining (run + place)) := by
            intro place among
            obtain ⟨label, member, rfl⟩ := LabelSet.exists_rank_eq (List.mem_range.mp among)
            exact ih (below label) (apart.child member) ((known label).symm.trans member)
          rw [mapM_eq_some each, List.flatMap_def]
          rfl

end Below

/-! ### Operations on a table -/

namespace Coherent

variable {loose : Prop} {forest : Forest} {tables : Finset Table} {table : Table}

theorem checked_locate (sound : Coherent loose forest tables) (member : table ∈ tables)
    (key : Int32) : Checked.locate forest table key = some (forest.locate table key) := by
  obtain ⟨tree, laid⟩ := sound.laid
  obtain ⟨labels, run, children, _, whole⟩ := laid.exists_stands member
  exact checked_locateFrom key levels whole.held whole.apart

/-- The entry of a key stands in the arena. -/
theorem lt_size_of_locate (sound : Coherent loose forest tables) (member : table ∈ tables)
    {key : Int32} {place : Place} (located : forest.locate table key = some place) :
    place.slot < forest.arena.slots.size := by
  obtain ⟨tree, laid⟩ := sound.laid
  rcases laid.locate forest member key with ⟨nowhere, _⟩ | found
  · rw [nowhere] at located
    cases located
  · obtain ⟨other, _, _, _, _, _, _, same, found, _⟩ := found
    rw [same] at located
    cases located
    rw [found.slot]
    exact ((found.leads.child found.member).stands (laid.stands member)).apart.lt_size

theorem checked_get? (sound : Coherent loose forest tables) (member : table ∈ tables)
    (key : Int32) : Checked.get? forest table key = some (forest.get? table key) := by
  rw [Checked.get?, get?, sound.checked_locate member, Option.bind_eq_bind, Option.bind_some]
  cases located : forest.locate table key with
  | none => rfl
  | some place =>
      dsimp only
      rw [Arena.checked_slot (sound.lt_size_of_locate member located), Option.bind_eq_bind,
        Option.bind_some]
      cases forest.arena.slot place.slot with
      | entry => rfl
      | node => rfl

theorem checked_contains (sound : Coherent loose forest tables) (member : table ∈ tables)
    (key : Int32) : Checked.contains forest table key = some (forest.contains table key) := by
  rw [Checked.contains, sound.checked_locate member]
  rfl

theorem checked_nested? (sound : Coherent loose forest tables) (member : table ∈ tables)
    (key : Int32) : Checked.nested? forest table key = some (forest.nested? table key) := by
  rw [Checked.nested?, nested?, sound.checked_locate member, Option.bind_eq_bind, Option.bind_some]
  cases located : forest.locate table key with
  | none => rfl
  | some place =>
      dsimp only
      rw [Arena.checked_slot (sound.lt_size_of_locate member located), Option.bind_eq_bind,
        Option.bind_some]
      cases forest.arena.slot place.slot with
      | entry => rfl
      | node => rfl

theorem checked_entries (sound : Coherent loose forest tables) (member : table ∈ tables) :
    Checked.entries forest table = some (forest.entries table) := by
  obtain ⟨tree, laid⟩ := sound.laid
  obtain ⟨labels, run, children, _, whole⟩ := laid.exists_stands member
  exact checked_entriesFrom levels whole.held whole.apart rfl

/-- Storing a value uses no slot outside of the arena, and leaves an arena in which the same may be
said of all that follows. -/
theorem checked_put (sound : Coherent loose forest tables) (member : table ∈ tables)
    (anchored : forest.arena.Anchored) (key : Int32) (value : Nat) :
    Checked.put forest table key value = some (forest.put table key value) ∧
      (forest.put table key value).2.arena.Anchored := by
  obtain ⟨tree, laid⟩ := sound.laid
  obtain ⟨labels, run, children, _, whole⟩ := laid.exists_stands member
  rw [Checked.put, put]
  split
  next => exact ⟨rfl, anchored⟩
  next => exact (stores_putFrom ..).checked anchored whole.held whole.apart

/-- Erasing a key uses no slot outside of the arena. -/
theorem checked_erase (sound : Coherent loose forest tables) (member : table ∈ tables)
    (anchored : forest.arena.Anchored) (key : Int32) :
    Checked.erase forest table key = some (forest.erase table key) ∧
      (forest.erase table key).2.arena.Anchored := by
  have checked := sound.checked_locate member key
  obtain ⟨tree, laid⟩ := sound.laid
  rw [Checked.erase, checked, Option.bind_eq_bind, Option.bind_some]
  rcases laid.locate forest member key with
    ⟨nowhere, _⟩ | ⟨place, labels, run, children, _, _, _, located, found, _⟩
  · rw [nowhere, erase_of_nowhere nowhere]
    exact ⟨rfl, anchored⟩
  · have below := found.leads.stands (laid.stands member)
    obtain ⟨same, anchoredAfter⟩ :=
      Arena.checked_eraseChild anchored below.held below.apart found.member
    rw [located, erase_of_located located]
    dsimp only
    rw [same]
    exact ⟨rfl, anchoredAfter⟩

/-- Creating a table uses no slot outside of the arena. -/
theorem checked_createNested (sound : Coherent loose forest tables) (member : table ∈ tables)
    (anchored : forest.arena.Anchored) (key : Int32) :
    Checked.createNested? forest table key = some (forest.createNested? table key) ∧
      (forest.createNested? table key).2.arena.Anchored := by
  have checked := sound.checked_locate member key
  have inside : ∀ {place}, forest.locate table key = some place →
      place.slot < forest.arena.slots.size := sound.lt_size_of_locate member
  obtain ⟨answer, after, created, nests⟩ := exists_nests forest table key
  rw [created]
  cases nests with
  | lacking nowhere =>
      simp [Checked.createNested?, checked, nowhere, anchored]
  | known located here =>
      simp [Checked.createNested?, checked, located, Arena.checked_slot (inside located), here,
        anchored]
  | refused located here allocation =>
      obtain ⟨rfl, _⟩ := Arena.alloc_none allocation
      simp [Checked.createNested?, checked, located, Arena.checked_slot (inside located), here,
        allocation, anchored]
  | @founded arena next count value offset place located here allocation =>
      obtain ⟨tree, laid⟩ := sound.laid
      have taken := Arena.alloc_taken (by decide) allocation
      obtain ⟨_, fits, _⟩ := laid.extend taken
      have insideNext : place.slot < (next.write offset Slot.empty).slots.size := by
        rw [Arena.size_write]
        exact Nat.lt_of_lt_of_le (inside located) taken.grows
      have anchoredNext : (next.write offset Slot.empty).Anchored :=
        (anchored.taken taken).write fits fun _ => Nat.zero_le _
      refine ⟨?_, anchoredNext.write_entry insideNext _ _ _⟩
      simp [Checked.createNested?, checked, located, Arena.checked_slot (inside located), here,
        allocation, Arena.checked_write fits, Arena.checked_write insideNext]

end Coherent

end Forest

end Lexicon

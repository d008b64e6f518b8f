/-
Module: Lexicon.Proofs.Forest.Growth
Layer: Proofs
Purpose: What storing a value does to the tree of a table, with the slots that it takes at most.
Imports: Lexicon.Proofs.Forest.Thrift
Trusted boundary: none
Main exports: Tree.lone, change_write, change_pushDown, change_insertChild, Storing,
  Forest.Stores.storing
-/
import Lexicon.Proofs.Forest.Thrift

namespace Lexicon

/-! ### Places -/

/-- Runs that share no slot lie one after the other, unless one of them is empty. -/
theorem apart_of_covers {first firstLength second secondLength : Nat}
    (sole : ∀ index, covers first firstLength index + covers second secondLength index ≤ 1) :
    firstLength = 0 ∨ secondLength = 0 ∨ first + firstLength ≤ second ∨
      second + secondLength ≤ first := by
  have lower := sole first
  have upper := sole second
  simp only [covers] at lower upper
  split at lower <;> split at lower <;> split at upper <;> split at upper <;> omega

namespace Tree

/-- A node with a single child. -/
def lone (label : Label) (run : Nat) (tree : Tree) : Tree :=
  .node (LabelSet.singleton label) run (Function.update (fun _ => .absent) label tree)

theorem claims_lone (label : Label) (run : Nat) (tree : Tree) (index : Nat) :
    (lone label run tree).claims index = covers run 1 index + tree.claims index := by
  have change := claims_update (LabelSet.singleton label) run (fun _ => .absent) label tree index
  simpa [lone, claims] using change

theorem lookup_lone (label : Label) (run : Nat) (tree : Tree) (key : Int32) (level : Nat) :
    (lone label run tree).lookup key level =
      if Label.ofKey key level = label then tree.lookup key (level + 1) else none := by
  rw [lone, lookup_update]
  rfl

/-- Pushing an entry down under its own label changes nothing that is said about any key. -/
theorem lookup_lone_entry (run : Nat) (key : Int32) (value : Nat) (nested : Option Nat)
    (other : Int32) (level : Nat) :
    (lone (Label.ofKey key level) run (.entry key value nested)).lookup other level =
      (Tree.entry key value nested).lookup other level := by
  rw [lookup_lone]
  simp only [lookup]
  by_cases same : key = other
  · subst same
    rw [if_pos rfl]
  · rw [if_neg same, ite_self]

/-- An entry says the same about other keys whatever is nested below it. -/
theorem lookup_entry_nested (key : Int32) (value : Nat) (before after : Option Nat)
    (other : Int32) (level : Nat) :
    (Tree.entry key value after).lookup other level =
      if other = key then some (value, after)
      else (Tree.entry key value before).lookup other level := by
  simp only [lookup]
  by_cases same : other = key
  · rw [if_pos same, if_pos same.symm]
  · rw [if_neg same, if_neg (Ne.symm same), if_neg (Ne.symm same)]

theorem thrifty_lone (label : Label) (run : Nat) (key : Int32) (value : Nat) (nested : Option Nat)
    (level : Nat) : (lone label run (.entry key value nested)).Thrifty level := by
  intro name
  by_cases same : name = label
  · subst same
    rw [Function.update_self]
    exact ⟨trivial, nofun⟩
  · rw [Function.update_of_ne same]
    exact ⟨trivial, nofun⟩

theorem holds_lone {slot : Nat → Slot} {label : Label} {run spare index : Nat} {tree : Tree}
    (here : slot index = .node (LabelSet.singleton label) run spare) (present : tree.present = true)
    (below : tree.Holds slot run) : (lone label run tree).Holds slot index := by
  refine ⟨⟨spare, here⟩, ?_, ?_⟩
  · intro other
    by_cases same : other = label
    · subst same
      simp [present]
    · simp [same, Tree.present]
  · intro other
    by_cases same : other = label
    · subst same
      simpa using below
    · rw [Function.update_of_ne same]
      trivial

end Tree

/-! ### Single steps -/

namespace Arena

theorem Sane.write {arena : Arena} (sane : arena.Sane) {index : Nat} {slot : Slot}
    (inside : index < arena.slots.size) (storable : slot.Storable) :
    (arena.write index slot).Sane := by
  refine ⟨by simpa using sane.bounded, ?_⟩
  intro other
  rw [slot_write inside]
  split
  next => exact storable
  next => exact sane.storable other

theorem Sane.taken {arena next : Arena} {length offset : Nat} (sane : arena.Sane)
    (taken : Taken arena length offset next) : next.Sane := by
  refine ⟨taken.bounded sane.bounded, ?_⟩
  intro index
  rw [taken.content]
  exact sane.storable index

/-- A node whose run lies inside a sane arena has a stored form. -/
theorem Sane.storable_node {arena : Arena} (sane : arena.Sane) {run : Nat}
    (inside : run < arena.slots.size) (labels : LabelSet) : (Slot.node labels run 0).Storable := by
  have bounded := sane.bounded
  have limit : maxSlots < LittleEndian.span 4 := by decide
  refine ⟨by omega, by decide⟩

theorem Sane.copy {arena : Arena} (sane : arena.Sane) {source target count : Nat}
    (apart : target ≤ source ∨ source + count ≤ target)
    (inside : target + count ≤ arena.slots.size) : (arena.copy source target count).Sane := by
  refine ⟨by simpa using sane.bounded, ?_⟩
  intro index
  rw [slot_copy apart inside]
  split
  next => exact sane.storable _
  next => exact sane.storable index

theorem Sane.release {arena : Arena} (sane : arena.Sane) (offset length : Nat) :
    (arena.release offset length).Sane := ⟨sane.bounded, sane.storable⟩

/-- A run copied to a longer one, with a new slot in between. -/
def widen (arena : Arena) (old new length place : Nat) (slot : Slot) : Arena :=
  ((arena.copy old new place).write (new + place) slot).copy (old + place) (new + place + 1)
    (length - place)

@[simp] theorem size_widen (arena : Arena) (old new length place : Nat) (slot : Slot) :
    (arena.widen old new length place slot).slots.size = arena.slots.size := by
  simp [widen]

@[simp] theorem available_widen (arena : Arena) (old new length place : Nat) (slot : Slot) :
    (arena.widen old new length place slot).available = arena.available := by
  simp [widen]

section Widening

variable {arena : Arena} {old new length place : Nat}

theorem slot_widen (slot : Slot) (placed : place ≤ length)
    (apart : length = 0 ∨ old + length ≤ new ∨ new + length + 1 ≤ old)
    (inside : new + length + 1 ≤ arena.slots.size) (index : Nat) :
    (arena.widen old new length place slot).slot index =
      if new ≤ index ∧ index < new + place then arena.slot (old + (index - new))
      else if index = new + place then slot
      else if new + place < index ∧ index ≤ new + length then
        arena.slot (old + (index - new - 1))
      else arena.slot index := by
  have room : new + place < (arena.copy old new place).slots.size := by
    rw [size_copy]
    omega
  rw [widen, slot_copy (by omega) (by rw [size_write, size_copy]; omega)]
  simp only [slot_write room]
  by_cases behind : new + place < index ∧ index ≤ new + length
  · rw [if_pos (by omega), if_neg (by omega), slot_copy (by omega) (by omega), if_neg (by omega),
      if_neg (by omega), if_neg (by omega), if_pos behind]
    congr 1
    omega
  · rw [if_neg (by omega), slot_copy (by omega) (by omega)]
    by_cases here : index = new + place
    · rw [if_pos here, if_neg (by omega), if_pos here]
    · rw [if_neg here, if_neg here, if_neg behind]

/-- In the longer run a child stands at its rank among the labels with the new one. -/
theorem slot_widen_rank {labels : LabelSet} {label other : Label} (slot : Slot)
    (fresh : labels.contains label = false) (member : labels.contains other = true)
    (apart : labels.size = 0 ∨ old + labels.size ≤ new ∨ new + labels.size + 1 ≤ old)
    (inside : new + labels.size + 1 ≤ arena.slots.size) :
    (arena.widen old new labels.size (labels.rank label.val) slot).slot
        (new + (labels.insert label).rank other.val) =
      arena.slot (old + labels.rank other.val) := by
  have placed : labels.rank label.val ≤ labels.size := labels.rank_mono (Nat.le_of_lt label.isLt)
  have within := LabelSet.rank_lt_size member
  rw [slot_widen slot placed apart inside, LabelSet.rank_insert fresh (Nat.le_of_lt other.isLt)]
  rcases Nat.lt_trichotomy other.val label.val with less | equal | more
  · have lower := LabelSet.rank_lt_rank member less
    rw [if_neg (Nat.lt_asymm less), if_pos (by omega)]
    congr 1
    omega
  · rw [Fin.ext equal, fresh] at member
    cases member
  · have upper := labels.rank_mono (Nat.le_of_lt more)
    rw [if_pos more, if_neg (by omega), if_neg (by omega), if_pos (by omega)]
    congr 1
    omega

theorem Sane.widen (sane : arena.Sane) {slot : Slot} (storable : slot.Storable)
    (placed : place ≤ length) (apart : length = 0 ∨ old + length ≤ new ∨ new + length + 1 ≤ old)
    (inside : new + length + 1 ≤ arena.slots.size) :
    (arena.widen old new length place slot).Sane := by
  have first := sane.copy (show new ≤ old ∨ old + place ≤ new by omega)
    (show new + place ≤ arena.slots.size by omega)
  have second := first.write (show new + place < _ by rw [size_copy]; omega) storable
  exact second.copy (by omega) (by rw [size_write, size_copy]; omega)

end Widening

/-- A run given back, if there is one. -/
def giveBack (arena : Arena) (run length : Nat) : Arena :=
  if length = 0 then arena else arena.release run length

@[simp] theorem size_giveBack (arena : Arena) (run length : Nat) :
    (arena.giveBack run length).slots.size = arena.slots.size := by
  unfold giveBack
  split <;> rfl

@[simp] theorem slot_giveBack (arena : Arena) (run length index : Nat) :
    (arena.giveBack run length).slot index = arena.slot index := by
  unfold giveBack
  split <;> rfl

theorem available_giveBack (arena : Arena) (run : Nat) {length : Nat} (small : length < 33)
    (index : Nat) :
    (arena.giveBack run length).available index =
      arena.available index + covers run length index := by
  unfold giveBack
  split
  next empty => rw [empty, covers_zero, Nat.add_zero]
  next => exact arena.available_release run small index

theorem Sane.giveBack {arena : Arena} (sane : arena.Sane) (run length : Nat) :
    (arena.giveBack run length).Sane := by
  unfold Arena.giveBack
  split
  next => exact sane
  next => exact sane.release run length

end Arena

/-- An entry replaced by another. -/
theorem change_write {arena : Arena} {index : Nat} {key resident : Int32} {value old : Nat}
    {nested table : Option Nat}
    (apart : (Tree.entry resident old table).Apart arena index)
    (storable : arena.Sane → (Slot.entry key value nested).Storable) :
    Change arena (arena.write index (.entry key value nested)) (.entry resident old table)
      (.entry key value nested) index := by
  have inside := apart.lt_size
  refine ⟨rfl, fun node => node, ?_, ?_, ?_, fun sane => sane.write inside (storable sane)⟩
  · show (arena.write index _).slot index = _
    rw [Arena.slot_write inside, if_pos rfl]
  · intro other
    rw [Arena.available_write]
    rfl
  · intro other differ _ _
    rw [Arena.slot_write inside, if_neg differ]

/-- An entry pushed one level down. -/
theorem change_pushDown {arena next : Arena} {index level : Nat} {key : Int32} {value : Nat}
    {nested : Option Nat} (held : (Tree.entry key value nested).Holds arena.slot index)
    (apart : (Tree.entry key value nested).Apart arena index)
    (pushed : arena.pushDown index level key (.entry key value nested) = (true, next)) :
    next.slots.size ≤ arena.slots.size + 1 ∧
      ∃ run, Change arena next (.entry key value nested)
        (.lone (Label.ofKey key (level + 1)) run (.entry key value nested)) index := by
  unfold Arena.pushDown at pushed
  split at pushed
  next => cases pushed
  next run middle allocated =>
    cases pushed
    have taken := Arena.alloc_taken (by decide) allocated
    have before := apart run
    have supply := taken.available run
    rw [covers_self] at supply
    have insideRun : run < middle.slots.size := Arena.lt_size_of_available (by omega)
    have insideIndex : index < middle.slots.size := Nat.lt_of_lt_of_le apart.lt_size taken.grows
    have differ : run ≠ index := by
      rintro rfl
      have unavailable := apart.unavailable.2
      omega
    have growth := taken.growth
    refine ⟨by simpa using growth, run, rfl, fun _ => rfl, ?_, ?_, ?_, ?_⟩
    · refine Tree.holds_lone (?_ : _ = Slot.node _ _ 0) rfl ?_
      · rw [Arena.slot_write (by simpa using insideIndex), if_pos rfl]
      · show (Arena.write _ _ _).slot run = _
        rw [Arena.slot_write (by simpa using insideIndex), if_neg differ,
          Arena.slot_write insideRun, if_pos rfl]
    · intro other
      rw [Arena.available_write, Arena.available_write, Tree.claims_lone, taken.available]
      simp only [Tree.claims]
      omega
    · intro other elsewhere _ unavailable
      have supply := taken.available other
      have apartRun : other ≠ run := by
        rintro rfl
        rw [covers_self] at supply
        omega
      rw [Arena.slot_write (by simpa using insideIndex), if_neg elsewhere,
        Arena.slot_write insideRun, if_neg apartRun, taken.content]
    · intro sane
      have storable : (Slot.entry key value nested).Storable := by
        rw [← show arena.slot index = _ from held]
        exact sane.storable index
      have saneMiddle := sane.taken taken
      exact (saneMiddle.write insideRun storable).write (by simpa using insideIndex)
        (saneMiddle.storable_node insideRun _)

namespace Arena

/-- What is left when a node got one more child: its run is a new one, in which the children stand in
order, and the old run is available. -/
structure Widened (before after : Arena) (index : Nat) (labels : LabelSet) (run : Nat)
    (label : Label) (slot : Slot) (new : Nat) : Prop where
  available : ∀ other, after.available other + covers new (labels.size + 1) other =
    before.available other + covers run labels.size other
  here : after.slot index = .node (labels.insert label) new 0
  added : after.slot (new + labels.rank label.val) = slot
  moved : ∀ other, labels.contains other = true →
    after.slot (new + (labels.insert label).rank other.val) =
      before.slot (run + labels.rank other.val)
  kept : ∀ other, other ≠ index → before.available other = 0 →
    after.slot other = before.slot other
  growth : after.slots.size ≤ before.slots.size + (labels.size + 1)
  sane : slot.Storable → before.Sane → after.Sane

/-- Where a new run stands among what was there: inside the arena, apart from the node at `index` and
from the node's run. -/
structure Clear (before middle : Arena) (index run size new : Nat) : Prop where
  offered : ∀ other, new ≤ other → other < new + (size + 1) → before.available other ≠ 0
  fits : new + size + 1 ≤ middle.slots.size
  disjoint : size = 0 ∨ run + size ≤ new ∨ new + size + 1 ≤ run
  outside : index < new ∨ new + size < index
  inside : index < middle.slots.size

theorem Taken.clear {arena middle : Arena} {index run size new : Nat}
    (taken : Taken arena (size + 1) new middle)
    (sole : ∀ other, covers index 1 other + covers run size other + arena.available other ≤ 1) :
    Clear arena middle index run size new := by
  have soleIndex := sole index
  rw [covers_self] at soleIndex
  have offered : ∀ other, new ≤ other → other < new + (size + 1) →
      arena.available other ≠ 0 ∧ middle.available other = 0 := by
    intro other low high
    have before := sole other
    have supply := taken.available other
    rw [covers_of_mem low high] at supply
    omega
  refine ⟨fun other low high => (offered other low high).1, ?_, ?_, ?_, ?_⟩
  · exact lt_size_of_available (offered (new + size) (by omega) (by omega)).2
  · have apart : ∀ other, covers run size other + covers new (size + 1) other ≤ 1 := by
      intro other
      have before := sole other
      have supply := taken.available other
      omega
    rcases apart_of_covers apart with empty | impossible | low | high <;> omega
  · by_contra between
    have impossible := (offered index (by omega) (by omega)).1
    omega
  · exact Nat.lt_of_lt_of_le (lt_size_of_available (by omega)) taken.grows

theorem insertChild_widened {arena next : Arena} {index run spare : Nat} {labels : LabelSet}
    {label : Label} {slot : Slot} (here : arena.slot index = .node labels run spare)
    (sole : ∀ other, covers index 1 other + covers run labels.size other +
      arena.available other ≤ 1)
    (fresh : labels.contains label = false)
    (inserted : arena.insertChild index label slot = (true, next)) :
    ∃ new, Widened arena next index labels run label slot new := by
  have narrow : labels.size + 1 < 33 := by
    have narrow := LabelSet.size_lt_of_lacking fresh
    omega
  have placed : labels.rank label.val ≤ labels.size := labels.rank_mono (Nat.le_of_lt label.isLt)
  simp only [insertChild, here, Slot.labels, Slot.run] at inserted
  split at inserted
  next => cases inserted
  next new middle allocated =>
    have taken := alloc_taken narrow allocated
    obtain ⟨offered, fits, disjoint, outside, insideIndex⟩ := taken.clear sole
    rw [← giveBack, ← widen] at inserted
    have content := slot_widen slot placed disjoint fits
    have insideKept : index < ((middle.widen run new labels.size (labels.rank label.val)
        slot).giveBack run labels.size).slots.size := by
      simpa using insideIndex
    cases inserted
    refine ⟨new, ?_, ?_, ?_, ?_, ?_, ?_, ?_⟩
    · intro other
      rw [available_write, available_giveBack _ _ (by omega), available_widen, taken.available]
      omega
    · rw [slot_write insideKept, if_pos rfl]
    · rw [slot_write insideKept, if_neg (by omega), slot_giveBack, content, if_neg (by omega),
        if_pos rfl]
    · intro other member
      have within : (labels.insert label).rank other.val < labels.size + 1 := by
        rw [← LabelSet.size_insert fresh]
        exact LabelSet.rank_lt_size (by simp [LabelSet.contains_insert, member])
      rw [slot_write insideKept, if_neg (by omega), slot_giveBack,
        slot_widen_rank slot fresh member disjoint fits, taken.content]
    · intro other elsewhere unavailable
      have untaken : ¬ (new ≤ other ∧ other < new + (labels.size + 1)) := by
        intro between
        exact offered other between.1 between.2 unavailable
      rw [slot_write insideKept, if_neg elsewhere, slot_giveBack, content, if_neg (by omega),
        if_neg (by omega), if_neg (by omega), taken.content]
    · have growth := taken.growth
      rw [size_write, size_giveBack, size_widen]
      omega
    · intro storable sane
      have saneMiddle := sane.taken taken
      exact ((saneMiddle.widen storable placed disjoint fits).giveBack run labels.size).write
        insideKept (saneMiddle.storable_node (show new < middle.slots.size by omega) _)

end Arena

/-- A node with one child more, which is an entry. -/
theorem change_insertChild {arena next : Arena} {index run : Nat} {labels : LabelSet}
    {children : Label → Tree} {label : Label} {key : Int32} {value : Nat} {nested : Option Nat}
    (held : (Tree.node labels run children).Holds arena.slot index)
    (apart : (Tree.node labels run children).Apart arena index)
    (fresh : labels.contains label = false) (storable : (Slot.entry key value nested).Storable)
    (inserted : arena.insertChild index label (.entry key value nested) = (true, next)) :
    next.slots.size ≤ arena.slots.size + (labels.size + 1) ∧
      ∃ new, Change arena next (.node labels run children)
        (.node (labels.insert label) new
          (Function.update children label (.entry key value nested))) index := by
  obtain ⟨spare, here⟩ := held.1
  have known := held.2.1
  obtain ⟨new, widened⟩ := Arena.insertChild_widened here apart.sole fresh inserted
  refine ⟨widened.growth, new, rfl, fun _ => rfl, ⟨⟨0, widened.here⟩, ?_, ?_⟩, ?_, ?_,
    widened.sane storable⟩
  · intro other
    rw [LabelSet.contains_insert]
    by_cases same : other = label
    · subst same
      simp [Tree.present]
    · rw [Function.update_of_ne same, known]
      simp [same]
  · intro other
    by_cases same : other = label
    · subst same
      rw [Function.update_self, LabelSet.rank_insert fresh (Nat.le_of_lt other.isLt),
        if_neg (Nat.lt_irrefl _), Nat.add_zero]
      exact widened.added
    · rw [Function.update_of_ne same]
      refine held.child_congr (widened.moved other) fun slot claimed => ?_
      have elsewhere := apart.inChild claimed
      exact widened.kept slot elsewhere.other elsewhere.unavailable
  · intro other
    have supply := widened.available other
    have replaced := Tree.claims_update labels run children label (.entry key value nested) other
    rw [held.absent fresh] at replaced
    simp only [Tree.claims] at replaced ⊢
    rw [LabelSet.size_insert fresh]
    omega
  · intro other elsewhere _ unavailable
    exact widened.kept other elsewhere unavailable

theorem insertChild_refused {arena next : Arena} {index : Nat} {label : Label} {slot : Slot}
    (refused : arena.insertChild index label slot = (false, next)) :
    next = arena ∧ maxSlots < arena.slots.size + ((arena.slot index).labels.size + 1) := by
  simp only [Arena.insertChild] at refused
  split at refused
  next middle allocated =>
    cases refused
    exact Arena.alloc_none allocated
  next => cases refused

theorem pushDown_refused {arena next : Arena} {index level : Nat} {key : Int32} {slot : Slot}
    (refused : arena.pushDown index level key slot = (false, next)) :
    next = arena ∧ maxSlots < arena.slots.size + 1 := by
  unfold Arena.pushDown at refused
  split at refused
  next middle allocated =>
    cases refused
    exact Arena.alloc_none allocated
  next => cases refused

/-! ### Storing a value -/

/-- How storing a value below a node may end: the value is stored; or there was no room, and nothing
that is said about any key has changed; or, where `loose` allows it, the key led below the last
level, and nothing has changed at all.  `room` is the number of slots that are taken at most. -/
inductive Storing (loose : Prop) (before : Forest) (tree : Tree) (key : Int32) (value : Nat)
    (level path index room : Nat) : Except Error Unit → Forest → Prop
  | stored (after : Forest) (new : Tree)
      (change : Change before.arena after.arena tree new index)
      (filed : new.Filed loose level path)
      (lookup : ∀ other, new.lookup other level =
        if other = key then some (value, (tree.lookup key level).bind (·.2))
        else tree.lookup other level)
      (count : after.count = before.count + if (tree.lookup key level).isSome then 0 else 1)
      (growth : after.slotCount ≤ before.slotCount + room)
      (sparing : tree.Sparing new level) :
      Storing loose before tree key value level path index room (.ok ()) after
  | full (after : Forest) (new : Tree)
      (change : Change before.arena after.arena tree new index)
      (filed : new.Filed loose level path)
      (lookup : ∀ other, new.lookup other level = tree.lookup other level)
      (count : after.count = before.count)
      (growth : after.slotCount ≤ before.slotCount + room)
      (short : maxSlots < before.slotCount + room) :
      Storing loose before tree key value level path index room (.error .forestFull) after
  | tooDeep (allowed : loose) :
      Storing loose before tree key value level path index room
        (.error (.format (.keyTooDeep key))) before

namespace Storing

variable {loose : Prop} {before middle after : Forest} {tree : Tree} {key : Int32} {value : Nat}
  {level path index room : Nat} {answer : Except Error Unit}

theorem weaken {larger : Nat} (least : room ≤ larger)
    (storing : Storing loose before tree key value level path index room answer after) :
    Storing loose before tree key value level path index larger answer after := by
  cases storing with
  | stored after new change filed lookup count growth sparing =>
      exact .stored _ new change filed lookup count (by omega) sparing
  | full after new change filed lookup count growth short =>
      exact .full _ new change filed lookup count (by omega) (by omega)
  | tooDeep allowed => exact .tooDeep allowed

/-- Storing below a child is storing below its parent. -/
theorem child {labels : LabelSet} {run : Nat} {children : Label → Tree}
    (whole : (Tree.node labels run children).Stands loose before.arena level path index)
    (member : labels.contains (Label.ofKey key level) = true)
    (storing : Storing loose before (children (Label.ofKey key level)) key value (level + 1)
      (path + (Label.ofKey key level).val * Label.weight level)
      (run + labels.rank (Label.ofKey key level).val) room answer after) :
    Storing loose before (.node labels run children) key value level path index room answer
      after := by
  cases storing with
  | stored after new change filedNew lookup count growth sparing =>
      exact .stored _ _ (change.child whole.held whole.apart member) (whole.filed.update filedNew)
        (Tree.lookup_update_of_lookup lookup) count growth sparing.child
  | full after new change filedNew lookup count growth short =>
      refine .full _ _ (change.child whole.held whole.apart member) (whole.filed.update filedNew)
        (fun other => ?_) count growth short
      rw [Tree.lookup_update]
      split
      next same => rw [lookup, Tree.lookup, same]
      next => rfl
  | tooDeep allowed => exact .tooDeep allowed

/-- What is stored with another key below an entry that was pushed down leaves two keys there. -/
theorem sparing_pushed {resident : Int32} {old run : Nat} {nested : Option Nat} {new : Tree}
    (differ : resident ≠ key) (stored : (new.lookup key level).isSome = true)
    (sparing : (Tree.lone (Label.ofKey resident level) run (.entry resident old nested)).Sparing new
      level) : (Tree.entry resident old nested).Sparing new level := by
  have kept : ∀ other, ((Tree.entry resident old nested).lookup other level).isSome = true →
      (new.lookup other level).isSome = true := by
    intro other has
    rw [← Tree.lookup_lone_entry run] at has
    exact sparing.kept other has
  refine ⟨kept, fun _ => sparing.thrifty (Tree.thrifty_lone _ _ _ _ _ _), fun _ _ => ?_⟩
  exact ⟨resident, key, differ, kept resident (by simp [Tree.lookup]), stored⟩

/-- Storing after an entry was pushed down is storing where the entry stood. -/
theorem pushed {resident : Int32} {old run : Nat} {nested : Option Nat} (differ : resident ≠ key)
    (storing : Storing False middle (.lone (Label.ofKey resident level) run
      (.entry resident old nested)) key value level path index room answer after)
    (change : Change before.arena middle.arena (.entry resident old nested)
      (.lone (Label.ofKey resident level) run (.entry resident old nested)) index)
    (growth : middle.slotCount ≤ before.slotCount + 1) (count : middle.count = before.count) :
    Storing loose before (.entry resident old nested) key value level path index (room + 1)
      answer after := by
  cases storing with
  | stored after new later filed lookup counted grown sparing =>
      refine .stored _ new (change.trans later) (filed.mono False.elim) ?_ ?_ (by omega)
        (sparing_pushed differ (by rw [lookup, if_pos rfl]; rfl) sparing)
      · intro other
        rw [lookup other, Tree.lookup_lone_entry, Tree.lookup_lone_entry]
      · rw [counted, count, Tree.lookup_lone_entry]
  | full after new later filed lookup counted grown short =>
      refine .full _ new (change.trans later) (filed.mono False.elim) ?_ (by omega) (by omega)
        (by omega)
      intro other
      rw [lookup other, Tree.lookup_lone_entry]
  | tooDeep impossible => exact impossible.elim

section Steps

variable {arena next : Arena} {count run : Nat} {labels : LabelSet} {children : Label → Tree}

/-- A key whose label is missing stays out where there is no room for its run. -/
theorem refused (whole : (Tree.node labels run children).Stands loose arena level path index)
    (narrow : labels.size + 1 ≤ room)
    (insertion : arena.insertChild index (Label.ofKey key level) (.entry key value none) =
      (false, next)) :
    Storing loose ⟨arena, count⟩ (.node labels run children) key value level path index room
      (.error .forestFull) ⟨next, count⟩ := by
  obtain ⟨rfl, short⟩ := insertChild_refused insertion
  rw [whole.held.parts.1] at short
  have lacking : maxSlots < (Forest.mk next count).slotCount + room := by
    simp only [Forest.slotCount]
    omega
  exact .full _ _ (.refl rfl whole.held) whole.filed (fun _ => rfl) rfl (Nat.le_add_right _ _) lacking

/-- A key whose label is missing becomes a new child. -/
theorem inserted (fits : value ≤ Forest.maxValue)
    (whole : (Tree.node labels run children).Stands loose arena level path index)
    (agrees : key.toUInt32.toNat % Label.weight level = path) (shallow : level < levels)
    (missing : labels.contains (Label.ofKey key level) = false) (narrow : labels.size + 1 ≤ room)
    (insertion : arena.insertChild index (Label.ofKey key level) (.entry key value none) =
      (true, next)) :
    Storing loose ⟨arena, count⟩ (.node labels run children) key value level path index room
      (.ok ()) ⟨next, count + 1⟩ := by
  have gone := whole.held.absent missing
  have nothing : (Tree.node labels run children).lookup key level = none := by
    simp only [Tree.lookup, gone]
  obtain ⟨growth, new, change⟩ :=
    change_insertChild whole.held whole.apart missing ⟨fits, by simp⟩ insertion
  have place : (Tree.entry key value none).Filed loose (level + 1)
      (path + (Label.ofKey key level).val * Label.weight level) := Label.agrees_succ agrees
  refine .stored _ _ change ⟨Or.inl shallow, (whole.filed.update place).2⟩ ?_ ?_ ?_
    (Tree.Sparing.child (gone ▸ .entry_absent _ _ _ _))
  · intro other
    rw [Tree.lookup_update, nothing]
    simp only [Tree.lookup]
    by_cases same : other = key
    · subst same
      simp
    · rw [if_neg same, if_neg (Ne.symm same)]
      split
      next equal => rw [equal, gone, Tree.lookup]
      next => rfl
  · simp [nothing]
  · simp only [Forest.slotCount]
    omega

/-- A key that is there gets the new value, and keeps what is nested below it. -/
theorem replaced (fits : value ≤ Forest.maxValue) {old : Nat} {nested : Option Nat}
    (whole : (Tree.entry key old nested).Stands loose arena level path index) :
    Storing loose ⟨arena, count⟩ (.entry key old nested) key value level path index room (.ok ())
      ⟨arena.write index (.entry key value nested), count⟩ := by
  have change : Change arena _ (.entry key old nested) (.entry key value nested) _ :=
    change_write whole.apart fun sane => sane.storable_entry whole.held fits
  refine .stored _ _ change whole.filed ?_ ?_ ?_ (.entry _ _ _ _ _ _)
  · intro other
    simp only [Tree.lookup]
    by_cases equal : other = key
    · subst equal
      simp
    · rw [if_neg (Ne.symm equal), if_neg equal, if_neg (Ne.symm equal)]
  · simp [Tree.lookup]
  · simp [Forest.slotCount]

section Collision

variable {resident : Int32} {old : Nat} {nested : Option Nat}

/-- An entry with another key that cannot be pushed down stays where it is. -/
theorem blocked (whole : (Tree.entry resident old nested).Stands loose arena (level + 1) path index)
    (pushing : arena.pushDown index level resident (.entry resident old nested) = (false, next)) :
    Storing loose ⟨arena, count⟩ (.entry resident old nested) key value (level + 1) path index
      (room + 1) (.error .forestFull) ⟨next, count⟩ := by
  obtain ⟨rfl, short⟩ := pushDown_refused pushing
  have lacking : maxSlots < (Forest.mk next count).slotCount + (room + 1) := by
    simp only [Forest.slotCount]
    omega
  exact .full _ _ (.refl rfl whole.held) whole.filed (fun _ => rfl) rfl (Nat.le_add_right _ _) lacking

/-- An entry with another key is pushed down below a new node, and then the value is stored below
that node. -/
theorem collided (differ : resident ≠ key)
    (whole : (Tree.entry resident old nested).Stands loose arena (level + 1) path index)
    (shallow : level + 1 < levels)
    (pushing : arena.pushDown index level resident (.entry resident old nested) = (true, next))
    (further : ∀ {new : Nat},
      let below := Tree.lone (Label.ofKey resident (level + 1)) new (.entry resident old nested)
      below.Stands False next (level + 1) path index →
        Storing False ⟨next, count⟩ below key value (level + 1) path index room answer after) :
    Storing loose ⟨arena, count⟩ (.entry resident old nested) key value (level + 1) path index
      (room + 1) answer after := by
  obtain ⟨growth, new, change⟩ := change_pushDown whole.held whole.apart pushing
  have place : (Tree.entry resident old nested).Filed False (level + 1 + 1)
      (path + (Label.ofKey resident (level + 1)).val * Label.weight (level + 1)) :=
    Label.agrees_succ whole.filed
  have storing := further ⟨change.held,
    Tree.Filed.update ⟨Or.inl shallow, fun _ => trivial⟩ place, change.apart whole.apart⟩
  exact storing.pushed differ change growth rfl

end Collision

end Steps

end Storing

/-- How many slots storing a key below a node may take: as many as a full node has children, or, if
the node was just made for an entry that was in the way, one for each level and one more. -/
inductive Room (remaining : Nat) : Tree → Nat → Prop
  | any (tree : Tree) : Room remaining tree 32
  | lone (label : Label) (run : Nat) (key : Int32) (value : Nat) (nested : Option Nat) :
      Room remaining (.lone label run (.entry key value nested)) (remaining + 1)

namespace Room

variable {remaining room run : Nat} {labels : LabelSet} {children : Label → Tree} {label : Label}

/-- There is room for one more child. -/
theorem size_lt (fit : Room (remaining + 1) (.node labels run children) room)
    (missing : labels.contains label = false) : labels.size + 1 ≤ room := by
  cases fit with
  | any => exact LabelSet.size_insert missing ▸ LabelSet.size_le _
  | lone => simp

/-- A node with a node below it is not the one that was just made. -/
theorem below (fit : Room (remaining + 1) (.node labels run children) room)
    {labelsBelow : LabelSet} {runBelow : Nat} {childrenBelow : Label → Tree}
    (shape : children label = .node labelsBelow runBelow childrenBelow) :
    Room remaining (.node labelsBelow runBelow childrenBelow) room := by
  generalize whole : Tree.node labels run children = tree at fit
  cases fit with
  | any => exact .any _
  | lone only =>
      cases whole
      by_cases same : label = only
      · rw [same, Function.update_self] at shape
        cases shape
      · rw [Function.update_of_ne same] at shape
        cases shape

/-- There is room for one more level, and for the last two children. -/
theorem add_two_le {tree : Tree} (fit : Room (remaining + 1) tree room) (few : remaining < levels) :
    remaining + 1 + 1 ≤ room := by
  cases fit with
  | any =>
      have total : levels = 7 := rfl
      omega
  | lone => exact Nat.le_refl _

end Room

namespace Forest

/-- Storing a value below a node does what it should.  It is shown for every `loose`, since below an
entry that was pushed down no node is out of place. -/
theorem Stores.storing {key : Int32} {value remaining level index : Nat} {forest after : Forest}
    {answer : Except Error Unit}
    (stores : Stores key value remaining level index forest answer after) (fits : value ≤ maxValue)
    {loose : Prop} {path room run : Nat} {labels : LabelSet} {children : Label → Tree}
    (total : remaining + level = levels)
    (whole : (Tree.node labels run children).Stands loose forest.arena level path index)
    (agrees : key.toUInt32.toNat % Label.weight level = path)
    (fit : Room remaining (.node labels run children) room) :
    Storing loose forest (.node labels run children) key value level path index room answer
      after := by
  induction stores generalizing loose path room run labels children with
  | bottom =>
      -- No label is left to follow: that is only so where nodes may stand below the last level.
      rcases whole.filed.1 with shallow | deep
      · omega
      · exact .tooDeep deep.1
  | refused missing insertion =>
      rw [whole.held.parts.1] at missing
      exact .refused whole (fit.size_lt missing) insertion
  | inserted missing insertion =>
      rw [whole.held.parts.1] at missing
      exact .inserted fits whole agrees (by omega) missing (fit.size_lt missing) insertion
  | replaced step here =>
      obtain ⟨member, rfl⟩ := whole.held.descends step
      have shape := whole.held.child_eq_entry member here
      refine .child whole member ?_
      rw [shape]
      exact .replaced fits (shape ▸ whole.child member)
  | clashed step here differ =>
      obtain ⟨member, rfl⟩ := whole.held.descends step
      -- Different keys have different labels at some level, so they do not clash at the last one.
      have deeper := whole.lt_levels_of_differ agrees member (whole.held.child_eq_entry member here)
        differ
      omega
  | blocked step here differ pushing =>
      obtain ⟨member, rfl⟩ := whole.held.descends step
      have shape := whole.held.child_eq_entry member here
      refine .child whole member (.weaken (fit.add_two_le (by omega)) ?_)
      rw [shape]
      exact .blocked (shape ▸ whole.child member) pushing
  | pushed step here differ pushing _ ih =>
      obtain ⟨member, rfl⟩ := whole.held.descends step
      have shape := whole.held.child_eq_entry member here
      refine .child whole member (.weaken (fit.add_two_le (by omega)) ?_)
      rw [shape]
      refine .collided differ (shape ▸ whole.child member) (by omega) pushing fun standing => ?_
      exact ih (by omega) standing (Label.agrees_succ agrees) (.lone _ _ _ _ _)
  | descended step inner _ ih =>
      obtain ⟨member, rfl⟩ := whole.held.descends step
      obtain ⟨labelsBelow, runBelow, childrenBelow, shape⟩ := whole.held.child_eq_node member inner
      refine .child whole member ?_
      rw [shape]
      exact ih (by omega) (shape ▸ whole.child member) (Label.agrees_succ agrees) (fit.below shape)

end Forest

end Lexicon

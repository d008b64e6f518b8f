/-
Module: Lexicon.Proofs.Forest.Depth
Layer: Proofs
Purpose: Which keys lead below the last level never changes: no operation makes such a node or takes one
  away.  So the keys that are refused in a forest that was read are known from the beginning.
Imports: Lexicon.Proofs.Forest.Loading
Trusted boundary: none
Main exports: Tree.sinks, Forest.sinksFrom_eq_sinks, Tree.Keeps, Forest.sinks_put, Forest.sinks_erase,
  Forest.sinks_createNested, Forest.Session.put_of_read
-/
import Lexicon.Proofs.Forest.Loading

namespace Lexicon

/-!
A walk through slots from outside lets nodes without children pass at any depth, and a key that leads to
one below the last level cannot be stored.  Such nodes stay where they are.  Nothing that is stored comes
to stand below them, since it is refused; and a node that is made for an entry in the way stands above
the last level, because two different keys part there at the latest.
-/

/-! ### Trees -/

namespace Tree

/-- Whether the labels of a key lead from a tree to a node below the last level. -/
def sinks (key : Int32) : Tree → (level : Nat) → Bool
  | .absent, _ => false
  | .entry .., _ => false
  | .node _ _ children, level =>
      if level < levels then (children (Label.ofKey key level)).sinks key (level + 1) else true

theorem sinks_node {level : Nat} (shallow : level < levels) (labels : LabelSet) (run : Nat)
    (children : Label → Tree) (key : Int32) :
    (node labels run children).sinks key level =
      (children (Label.ofKey key level)).sinks key (level + 1) := by
  rw [sinks, if_pos shallow]

@[simp] theorem sinks_bare (key : Int32) : bare.sinks key 0 = false := rfl

/-- What a node leads to depends on its children alone. -/
theorem sinks_congr {labels wider : LabelSet} {run other : Nat} {children new : Label → Tree}
    {level : Nat} (same : ∀ label key, (new label).sinks key (level + 1) =
      (children label).sinks key (level + 1)) (key : Int32) :
    (node wider other new).sinks key level = (node labels run children).sinks key level := by
  simp only [sinks, same]

/-- A child that leads to what the one before it did. -/
theorem sinks_update {labels wider : LabelSet} {run other : Nat} {children : Label → Tree}
    {label : Label} {new : Tree} {level : Nat}
    (same : ∀ key, new.sinks key (level + 1) = (children label).sinks key (level + 1))
    (key : Int32) :
    (node wider other (Function.update children label new)).sinks key level =
      (node labels run children).sinks key level := by
  refine sinks_congr (fun name key => ?_) key
  by_cases equal : name = label
  · subst equal
    rw [Function.update_self, same]
  · rw [Function.update_of_ne equal]

/-- A node with a single entry leads nowhere, if it stands above the last level. -/
theorem sinks_lone {level : Nat} (shallow : level < levels) (label : Label) (run : Nat)
    (resident : Int32) (value : Nat) (nested : Option Nat) (key : Int32) :
    (lone label run (.entry resident value nested)).sinks key level = false := by
  rw [lone, sinks_node shallow]
  by_cases same : Label.ofKey key level = label
  · rw [same, Function.update_self]
    rfl
  · rw [Function.update_of_ne same]
    rfl

end Tree

/-- Following the labels in the arena is following them in the tree. -/
theorem Forest.sinksFrom_eq_sinks {arena : Arena} {key : Int32} (remaining : Nat) :
    ∀ {level index run : Nat} {labels : LabelSet} {children : Label → Tree},
      remaining + level = levels → (Tree.node labels run children).Holds arena.slot index →
      sinksFrom arena key remaining level index = (Tree.node labels run children).sinks key level := by
  induction remaining with
  | zero =>
      intro level index run labels children total _
      rw [sinksFrom, Tree.sinks, if_neg (by omega)]
  | succ remaining ih =>
      intro level index run labels children total held
      obtain ⟨⟨spare, here⟩, known, below⟩ := held
      have present := known (Label.ofKey key level)
      have heldBelow := below (Label.ofKey key level)
      rw [Tree.sinks_node (by omega)]
      simp only [sinksFrom, here, Slot.labels, Slot.child, Slot.run]
      rw [present]
      cases shape : children (Label.ofKey key level) with
      | absent => rfl
      | entry resident value nested =>
          rw [shape] at heldBelow
          rw [show arena.slot _ = .entry resident value nested from heldBelow]
          rfl
      | node labelsBelow runBelow childrenBelow =>
          rw [shape] at heldBelow
          obtain ⟨spareBelow, hereBelow⟩ := heldBelow.1
          rw [hereBelow, ih (by omega) heldBelow]
          rfl

/-! ### Changes that keep the depth -/

namespace Tree

/-- A tree becomes another one from which the same keys lead below the last level. -/
def Keeps (loose : Prop) (before after : Arena) (tree : Tree) (level path index : Nat) : Prop :=
  ∃ new, Change before after tree new index ∧ new.Filed loose level path ∧
    ∀ key, new.sinks key level = tree.sinks key level

namespace Keeps

variable {loose : Prop} {before middle after : Arena} {tree : Tree} {level path index : Nat}

theorem refl (whole : tree.Stands loose before level path index) (present : tree.present = true) :
    Keeps loose before before tree level path index :=
  ⟨tree, .refl present whole.held, whole.filed, fun _ => rfl⟩

/-- What keeps a child keeps its parent. -/
theorem child {labels : LabelSet} {run : Nat} {children : Label → Tree} {label : Label}
    (whole : (node labels run children).Stands loose before level path index)
    (member : labels.contains label = true)
    (keeps : Keeps loose before after (children label) (level + 1)
      (path + label.val * Label.weight level) (run + labels.rank label.val)) :
    Keeps loose before after (node labels run children) level path index := by
  obtain ⟨new, change, filed, same⟩ := keeps
  exact ⟨_, change.child whole.held whole.apart member, whole.filed.update filed, sinks_update same⟩

/-- What keeps a tree to which the labels of a key lead keeps the tree from which they do. -/
theorem lift {key : Int32} {below : Tree} {levelBelow pathBelow indexBelow : Nat}
    (leads : Leads key below levelBelow pathBelow indexBelow tree level path index)
    (whole : tree.Stands loose before level path index)
    (keeps : Keeps loose before after below levelBelow pathBelow indexBelow) :
    Keeps loose before after tree level path index := by
  induction leads with
  | here => exact keeps
  | down member _ ih => exact child whole member (ih (whole.child member))

/-- An entry replaced by another one for the same key. -/
theorem write {arena : Arena} {key : Int32} {old value : Nat} {table nested : Option Nat}
    (whole : (entry key old table).Stands loose arena level path index)
    (storable : arena.Sane → (Slot.entry key value nested).Storable) :
    Keeps loose arena (arena.write index (.entry key value nested)) (entry key old table) level path
      index :=
  ⟨.entry key value nested, change_write whole.apart storable, whole.filed, fun _ => rfl⟩

/-- A node with one child more, which is an entry. -/
theorem insert {arena next : Arena} {labels : LabelSet} {run : Nat} {children : Label → Tree}
    {key : Int32} {value : Nat} (fits : value ≤ Forest.maxValue)
    (whole : (node labels run children).Stands loose arena level path index)
    (agrees : key.toUInt32.toNat % Label.weight level = path) (shallow : level < levels)
    (missing : labels.contains (Label.ofKey key level) = false)
    (inserted : arena.insertChild index (Label.ofKey key level) (.entry key value none) =
      (true, next)) :
    Keeps loose arena next (node labels run children) level path index := by
  obtain ⟨_, new, change⟩ :=
    change_insertChild whole.held whole.apart missing ⟨fits, by simp⟩ inserted
  have gone := whole.held.absent missing
  have place : (entry key value none).Filed loose (level + 1)
      (path + (Label.ofKey key level).val * Label.weight level) := Label.agrees_succ agrees
  exact ⟨_, change, ⟨Or.inl shallow, (whole.filed.update place).2⟩,
    sinks_update fun _ => by rw [gone]; rfl⟩

/-- An entry taken away from a node. -/
theorem erase {arena : Arena} {labels : LabelSet} {run : Nat} {children : Label → Tree}
    {key : Int32} {value : Nat} {nested : Option Nat}
    (whole : (node labels run children).Stands loose arena level path index)
    (held : children (Label.ofKey key level) = .entry key value nested) :
    Keeps loose arena (arena.eraseChild index (Label.ofKey key level)) (node labels run children)
      level path index := by
  have known := whole.held.2.1
  have member : labels.contains (Label.ofKey key level) = true := by rw [known, held]; rfl
  refine ⟨_, change_pruned whole.held whole.apart held,
    whole.filed.pruned (whole.filed.shallow member), ?_⟩
  unfold Tree.pruned
  split
  next single =>
    refine sinks_congr fun label other => ?_
    by_cases same : label = Label.ofKey key level
    · rw [same, held]
      rfl
    · rw [absent_of_single known single member same]
  next => exact sinks_update fun _ => by rw [held]; rfl

/-- An entry pushed one level down, and what then keeps the node above it. -/
theorem pushed {arena next : Arena} {key : Int32} {value : Nat} {nested : Option Nat}
    (whole : (entry key value nested).Stands loose arena (level + 1) path index)
    (shallow : level + 1 < levels)
    (done : arena.pushDown index level key (.entry key value nested) = (true, next))
    (further : ∀ {run : Nat},
      let below := lone (Label.ofKey key (level + 1)) run (entry key value nested)
      below.Stands loose next (level + 1) path index →
        Keeps loose next after below (level + 1) path index) :
    Keeps loose arena after (entry key value nested) (level + 1) path index := by
  obtain ⟨_, run, change⟩ := change_pushDown whole.held whole.apart done
  have place : (entry key value nested).Filed loose (level + 1 + 1)
      (path + (Label.ofKey key (level + 1)).val * Label.weight (level + 1)) :=
    Label.agrees_succ whole.filed
  obtain ⟨new, later, filed, same⟩ := further
    ⟨change.held, Filed.update ⟨Or.inl shallow, fun _ => trivial⟩ place, change.apart whole.apart⟩
  exact ⟨new, change.trans later, filed, fun other =>
    (same other).trans (sinks_lone shallow _ _ _ _ _ _)⟩

end Keeps

end Tree

namespace Forest

section Operations

variable {loose : Prop}

/-- Storing a value keeps the depth, whatever the answer is. -/
theorem Stores.keeps {key : Int32} {value remaining level index : Nat} {forest after : Forest}
    {answer : Except Error Unit}
    (stores : Stores key value remaining level index forest answer after) (fits : value ≤ maxValue)
    {path run : Nat} {labels : LabelSet} {children : Label → Tree}
    (total : remaining + level = levels)
    (whole : (Tree.node labels run children).Stands loose forest.arena level path index)
    (agrees : key.toUInt32.toNat % Label.weight level = path) :
    Tree.Keeps loose forest.arena after.arena (.node labels run children) level path index := by
  induction stores generalizing path run labels children with
  | bottom => exact .refl whole rfl
  | clashed => exact .refl whole rfl
  | refused _ insertion =>
      obtain ⟨rfl, _⟩ := insertChild_refused insertion
      exact .refl whole rfl
  | inserted missing insertion =>
      rw [whole.held.parts.1] at missing
      exact .insert fits whole agrees (by omega) missing insertion
  | replaced step here =>
      obtain ⟨member, rfl⟩ := whole.held.descends step
      have shape := whole.held.child_eq_entry member here
      refine .child whole member ?_
      rw [shape]
      exact .write (shape ▸ whole.child member) fun sane => sane.storable_entry here fits
  | blocked _ _ _ pushing =>
      obtain ⟨rfl, _⟩ := pushDown_refused pushing
      exact .refl whole rfl
  | pushed step here differ pushing _ ih =>
      obtain ⟨member, rfl⟩ := whole.held.descends step
      have shape := whole.held.child_eq_entry member here
      refine .child whole member ?_
      rw [shape]
      refine .pushed (shape ▸ whole.child member) (by omega) pushing fun {run} standing => ?_
      exact ih (by omega) standing (Label.agrees_succ agrees)
  | descended step inner _ ih =>
      obtain ⟨member, rfl⟩ := whole.held.descends step
      obtain ⟨labelsBelow, runBelow, childrenBelow, shape⟩ := whole.held.child_eq_node member inner
      refine .child whole member ?_
      rw [shape]
      exact ih (by omega) (shape ▸ whole.child member) (Label.agrees_succ agrees)

variable {before after forest : Forest} {tables : Finset Table} {tree : Table → Tree}
  {table other : Table}

/-- A key leads below the last level in a table where it does so in its tree. -/
theorem Standing.sinks_eq (laid : Standing loose forest.arena tables tree) (member : table ∈ tables)
    (key : Int32) : forest.sinks table key = (tree table).sinks key 0 := by
  have held := laid.held table member
  obtain ⟨labels, run, children, shape⟩ := laid.exists_node member
  rw [shape] at held ⊢
  exact sinksFrom_eq_sinks levels rfl held

/-- When one table is kept, the same keys lead below the last level in all of them. -/
theorem Standing.sinks_kept (laid : Standing loose before.arena tables tree)
    (member : table ∈ tables)
    (keeps : Tree.Keeps loose before.arena after.arena (tree table) 0 0 table.slot)
    (among : other ∈ tables) (key : Int32) : after.sinks other key = before.sinks other key := by
  obtain ⟨new, change, filed, same⟩ := keeps
  rw [(laid.change member change filed).sinks_eq among, laid.sinks_eq among]
  by_cases equal : other = table
  · subst equal
    rw [Function.update_self, same]
  · rw [Function.update_of_ne equal]

/-- Storing a value leaves the keys that lead too deep as they are. -/
theorem sinks_put (sound : Coherent loose forest tables) (member : table ∈ tables) (key : Int32)
    (value : Nat) (among : other ∈ tables) (name : Int32) :
    (forest.put table key value).2.sinks other name = forest.sinks other name := by
  obtain ⟨tree, laid⟩ := sound.laid
  rcases Nat.lt_or_ge maxValue value with wide | fits
  · rw [put_of_gt wide]
  · refine laid.sinks_kept member ?_ among name
    obtain ⟨labels, run, children, shape, whole⟩ := laid.exists_stands member
    rw [shape]
    exact (stores_put forest table key fits).keeps fits rfl whole (Nat.mod_one _)

/-- So does erasing a key. -/
theorem sinks_erase (sound : Coherent loose forest tables) (member : table ∈ tables) (key : Int32)
    (among : other ∈ tables) (name : Int32) :
    (forest.erase table key).2.sinks other name = forest.sinks other name := by
  obtain ⟨tree, laid⟩ := sound.laid
  rcases laid.locate forest member key with ⟨nowhere, _⟩ | found
  · rw [erase_of_nowhere nowhere]
  · obtain ⟨place, labels, run, children, value, nested, path, located, found, _⟩ := found
    rw [erase_of_located located]
    refine laid.sinks_kept member ?_ among name
    have whole := laid.stands member
    exact .lift found.leads whole (.erase (found.leads.stands whole) found.entry)

/-- An empty table beside others leaves the keys that lead too deep in them as they are, and no key
does so in it. -/
theorem Standing.sinks_extend {arena next : Arena} {offset : Nat}
    (laid : Standing loose arena tables tree) (taken : Arena.Taken arena 1 offset next)
    (count : Nat) (name : Int32) :
    (∀ other ∈ tables,
      sinks ⟨next.write offset Slot.empty, count⟩ other name = sinks ⟨arena, count⟩ other name) ∧
    sinks ⟨next.write offset Slot.empty, count⟩ ⟨offset⟩ name = false := by
  obtain ⟨fresh, _, wide⟩ := laid.extend taken
  have before : Standing loose (Forest.mk arena count).arena tables tree := laid
  have after : Standing loose (Forest.mk (next.write offset Slot.empty) count).arena _ _ := wide
  constructor
  · intro other among
    rw [after.sinks_eq (Finset.mem_insert_of_mem among), before.sinks_eq among,
      Function.update_of_ne (ne_of_mem_of_not_mem among fresh)]
  · rw [after.sinks_eq (Finset.mem_insert_self _ _), Function.update_self, Tree.sinks_bare]

/-- A table of which an entry gets a nested one is kept. -/
theorem Standing.keeps_nest {arena : Arena} {place : Place} {labels : LabelSet}
    {run value path offset : Nat} {children : Label → Tree} {key : Int32}
    (laid : Standing loose arena tables tree) (member : table ∈ tables)
    (found : Found key (tree table) 0 0 table.slot place labels run children value none path)
    (top : offset ≠ 0) (inside : offset < arena.slots.size) :
    Tree.Keeps loose arena (arena.write place.slot (.entry key value (some offset))) (tree table) 0 0
      table.slot := by
  have leads := found.leads.child found.member
  rw [found.entry, ← found.slot] at leads
  have below := leads.stands (laid.stands member)
  exact .lift leads (laid.stands member)
    ⟨_, change_nest below.held below.apart top inside, below.filed, fun _ => rfl⟩

/-- Creating a nested table leaves the keys that lead too deep as they are, and none does so in a new
table. -/
theorem sinks_createNested (sound : Coherent loose forest tables) (member : table ∈ tables)
    (key : Int32) (name : Int32) :
    (∀ other ∈ tables,
      (forest.createNested? table key).2.sinks other name = forest.sinks other name) ∧
    ∀ fresh, fresh ∉ tables → (forest.createNested? table key).1 = some fresh →
      (forest.createNested? table key).2.sinks fresh name = false := by
  obtain ⟨answer, after, created, nests⟩ := exists_nests forest table key
  rw [created]
  cases nests with
  | lacking => exact ⟨fun _ _ => rfl, nofun⟩
  | known located here =>
      refine ⟨fun _ _ => rfl, fun fresh unknown answered => ?_⟩
      cases answered
      exact absurd (sound.linked member (under?_of_located located here)).1 unknown
  | refused _ _ allocation =>
      obtain ⟨rfl, _⟩ := Arena.alloc_none allocation
      exact ⟨fun _ _ => rfl, nofun⟩
  | @founded arena next count value offset place located here allocation =>
      obtain ⟨tree, laid⟩ := sound.laid
      have taken := Arena.alloc_taken (by decide) allocation
      obtain ⟨top, inside, wide, _, _, _, _, found⟩ :=
        laid.beside sound.rooted member taken located here
      have memberWide : table ∈ insert (⟨offset⟩ : Table) tables := Finset.mem_insert_of_mem member
      have keeps := wide.keeps_nest memberWide found top inside
      obtain ⟨others, silent⟩ := laid.sinks_extend taken count name
      -- Two steps: the empty table is put beside the others, and then the entry refers to it.
      have kept : ∀ other ∈ insert (⟨offset⟩ : Table) tables,
          sinks ⟨(next.write offset Slot.empty).write place.slot (.entry key value (some offset)),
            count⟩ other name = sinks ⟨next.write offset Slot.empty, count⟩ other name := by
        intro other among
        have wideForest :
          Standing loose (Forest.mk (next.write offset Slot.empty) count).arena _ _ := wide
        exact wideForest.sinks_kept memberWide keeps among name
      refine ⟨fun other among => ?_, fun created unknown answered => ?_⟩
      · exact (kept other (Finset.mem_insert_of_mem among)).trans (others other among)
      · cases answered
        exact (kept _ (Finset.mem_insert_self _ _)).trans silent

end Operations

/-! ### Runs -/

namespace Session

/-- A session goes on from a first one: it knows all its tables, and in those the same keys lead below
the last level, in the others none. -/
structure Continues (first session : Session) : Prop where
  reflects : ∃ atlas, Reflects True session atlas
  anchored : session.forest.arena.Anchored
  known : ∀ table ∈ first.handles, table ∈ session.handles
  old : ∀ table ∈ first.handles, ∀ key,
    session.forest.sinks table key = first.forest.sinks table key
  new : ∀ table ∈ session.handles, table ∉ first.handles → ∀ key,
    session.forest.sinks table key = false

namespace Continues

variable {first session : Session}

/-- A step that leaves the keys of the known tables as they are, and adds tables in which no key leads
too deep. -/
theorem next {after : Session} (continues : Continues first session)
    (reflects : ∃ atlas, Reflects True after atlas) (anchored : after.forest.arena.Anchored)
    (known : ∀ table ∈ session.handles, table ∈ after.handles)
    (old : ∀ table ∈ session.handles, ∀ key,
      after.forest.sinks table key = session.forest.sinks table key)
    (new : ∀ table ∈ after.handles, table ∉ session.handles → ∀ key,
      after.forest.sinks table key = false) : Continues first after := by
  refine ⟨reflects, anchored, fun table member => known table (continues.known table member), ?_, ?_⟩
  · intro table member key
    rw [old table (continues.known table member), continues.old table member]
  · intro table member fresh key
    by_cases among : table ∈ session.handles
    · rw [old table among, continues.new table among fresh]
    · exact new table member among key

theorem step (continues : Continues first session) (request : Request) :
    Continues first (session.step request).2 := by
  obtain ⟨atlas, reflects⟩ := continues.reflects
  obtain ⟨nextAtlas, _, reflectsAfter⟩ := reflects.step request
  have anchoredAfter := (reflects.checked_step continues.anchored request).2
  have sound := reflects.sound
  have among : ∀ {table : Table}, table ∈ session.handles → table ∈ session.handles.toFinset :=
    fun member => List.mem_toFinset.mpr member
  cases request with
  | put table key value =>
      exact continues.next ⟨_, reflectsAfter⟩ anchoredAfter (fun _ => id)
        (fun _ member => sinks_put sound (reflects.member table) key value (among member))
        fun _ member fresh => absurd member fresh
  | get | contains => exact continues
  | erase table key =>
      exact continues.next ⟨_, reflectsAfter⟩ anchoredAfter (fun _ => id)
        (fun _ member => sinks_erase sound (reflects.member table) key (among member))
        fun _ member fresh => absurd member fresh
  | nested table key =>
      rw [Session.step] at reflectsAfter anchoredAfter ⊢
      refine continues.next ⟨_, reflectsAfter⟩ anchoredAfter
        (fun _ member => mem_handles_hand.mpr (.inl member))
        (fun _ _ _ => by rw [forest_hand]) fun other member fresh => ?_
      have handed := (mem_handles_hand.mp member).resolve_left fresh
      rw [nested?_eq] at handed
      obtain ⟨⟨value, _⟩, here, rfl⟩ := Option.bind_eq_some_iff.mp handed
      exact absurd (List.mem_toFinset.mp (sound.linked (reflects.member table) here).1) fresh
  | createNested table key =>
      rw [Session.step] at reflectsAfter anchoredAfter ⊢
      have created := sinks_createNested sound (reflects.member table) key
      refine continues.next ⟨_, reflectsAfter⟩ anchoredAfter
        (fun _ member => mem_handles_hand.mpr (.inl member)) (fun other member name => ?_)
        fun other member fresh name => ?_
      · rw [forest_hand]
        exact (created name).1 other (among member)
      · rw [forest_hand]
        exact (created name).2 other (fun member => fresh (List.mem_toFinset.mp member))
          ((mem_handles_hand.mp member).resolve_left fresh)

theorem run (continues : Continues first session) (requests : List Request) :
    Continues first (session.run requests).2 := by
  induction requests generalizing session with
  | nil => exact continues
  | cons request requests ih => exact ih (continues.step request)

/-- A value that fits is refused for the depth of its key just where the key led below the last level at
first.  Where there is room, every other one is stored. -/
theorem put (continues : Continues first session) {table : Table} (member : table ∈ session.handles)
    (key : Int32) {value : Nat} (fits : value ≤ maxValue) :
    Checked.put session.forest table key value = some (session.forest.put table key value) ∧
      ((session.forest.put table key value).1 = .error (.format (.keyTooDeep key)) ↔
        table ∈ first.handles ∧ first.forest.sinks table key = true) ∧
      (¬ (table ∈ first.handles ∧ first.forest.sinks table key = true) →
        session.forest.slotCount + 32 ≤ maxSlots →
        (session.forest.put table key value).1 = .ok ()) := by
  obtain ⟨atlas, reflects⟩ := continues.reflects
  have among : table ∈ session.handles.toFinset := List.mem_toFinset.mpr member
  have deep : session.forest.sinks table key = true ↔
      table ∈ first.handles ∧ first.forest.sinks table key = true := by
    by_cases old : table ∈ first.handles
    · rw [continues.old table old]
      exact (and_iff_right old).symm
    · rw [continues.new table member old]
      simp [old]
  have refused := put_tooDeep_iff reflects.sound among key fits
  refine ⟨(reflects.sound.checked_put among continues.anchored key value).1, refused.trans deep, ?_⟩
  intro high room
  rcases put_of_room reflects.sound among key fits room with ⟨after, stored, _⟩ | ⟨tooDeep, _⟩
  · rw [stored]
  · exact absurd (deep.mp (refused.mp (by rw [tooDeep]))) high

end Continues

/-- Which keys a forest takes that was read.  Let it be one of those that are accepted, provided
that nodes without children begin in it.  Whatever has been asked of it, storing a value that fits uses
no slot outside of the arena.  The value is refused for the depth of its key just where, when the forest
was read, the root led to the table and the key led there below the last level.  Every other value is
stored while there is room for it. -/
theorem put_of_read {cursor next : Cursor} {forest : Forest}
    (accepted : read cursor = .ok (forest, next)) (anchored : forest.arena.Anchored) :
    ∃ handles : List Table, (∀ table, table ∈ handles ↔ forest.Reaches table) ∧
      ∀ requests, let session := (run ⟨forest, handles⟩ requests).2
        (∀ table, table ∈ handles ∨ session.forest.Reaches table → table ∈ session.handles) ∧
        ∀ table ∈ session.handles, ∀ key {value}, value ≤ maxValue →
          Checked.put session.forest table key value = some (session.forest.put table key value) ∧
            ((session.forest.put table key value).1 = .error (.format (.keyTooDeep key)) ↔
              table ∈ handles ∧ forest.sinks table key = true) ∧
            (¬ (table ∈ handles ∧ forest.sinks table key = true) →
              session.forest.slotCount + 32 ≤ maxSlots →
              (session.forest.put table key value).1 = .ok ()) := by
  obtain ⟨handles, _, _, whole, reflects⟩ := exists_reflects_of_read accepted
  have begins : Continues ⟨forest, handles⟩ ⟨forest, handles⟩ :=
    ⟨⟨_, reflects⟩, anchored, fun _ => id, fun _ _ _ => rfl,
      fun _ member fresh => absurd member fresh⟩
  refine ⟨handles, whole, fun requests => ⟨fun table leads => ?_, fun table member key {_} fits =>
    (begins.run requests).put member key fits⟩⟩
  obtain ⟨_, after⟩ := (begins.run requests).reflects
  exact leads.elim ((begins.run requests).known table) fun reaches =>
    List.mem_toFinset.mp (after.sound.mem_of_reaches reaches)

/-- Below label 0 of the root there are nodes down to an empty one below the last level. -/
def shaft : Forest :=
  { arena := .ofSlots #[.node (LabelSet.singleton 0) 1 0, .node (LabelSet.singleton 0) 2 0,
      .node (LabelSet.singleton 0) 3 0, .node (LabelSet.singleton 0) 4 0,
      .node (LabelSet.singleton 0) 5 0, .node (LabelSet.singleton 0) 6 0,
      .node (LabelSet.singleton 0) 7 0, Slot.empty]
    count := 0 }

theorem read_shaft : ∃ next, read (shaft.amid [] []) = .ok (shaft, next) := by
  have takes : CheckedReader.Takes read shaft.encode shaft :=
    takes_read_ofSlots (by decide) (by decide) (by decide +kernel) rfl (by decide +kernel) (by decide)
  exact ⟨_, takes _ [] (shows_amid shaft [] [])⟩

theorem anchored_shaft : shaft.arena.Anchored := .of_slots (by decide +kernel)

/-- That is accepted, and whatever is done then, key 0 is never stored at the root; key 1 can be. -/
theorem put_of_read_shaft :
    ∃ next handles, read (shaft.amid [] []) = .ok (shaft, next) ∧ shaft.arena.Anchored ∧
      ∀ requests, let session := (run ⟨shaft, handles⟩ requests).2
        (session.forest.put root 0 0).1 = .error (.format (.keyTooDeep 0)) ∧
          (session.forest.slotCount + 32 ≤ maxSlots → (session.forest.put root 1 0).1 = .ok ()) := by
  obtain ⟨next, accepted⟩ := read_shaft
  obtain ⟨handles, whole, stored⟩ := put_of_read accepted anchored_shaft
  refine ⟨next, handles, accepted, anchored_shaft, fun requests => ?_⟩
  obtain ⟨known, puts⟩ := stored requests
  have member := known root (.inr .top)
  refine ⟨?_, (puts root member 1 (Nat.zero_le _)).2.2 fun deep => ?_⟩
  · have deep : root ∈ handles ∧ shaft.sinks root 0 = true :=
      ⟨(whole root).mpr .top, by decide +kernel⟩
    exact (puts root member 0 (Nat.zero_le _)).2.1.mpr deep
  · have high : shaft.sinks root 1 = false := by decide +kernel
    rw [high] at deep
    cases deep.2

/-- So it is not true that a forest that is accepted takes every key. -/
theorem put_refused_shaft :
    ¬ ∀ (cursor next : Cursor) (forest : Forest), read cursor = .ok (forest, next) →
      forest.arena.Anchored → ∀ table, forest.Reaches table → ∀ key value, value ≤ maxValue →
        forest.slotCount + 32 ≤ maxSlots → (forest.put table key value).1 = .ok () := by
  intro takesAll
  obtain ⟨next, accepted⟩ := read_shaft
  have stored := takesAll _ next shaft accepted anchored_shaft root .top 0 0 (Nat.zero_le _)
    (by decide)
  have refused : (shaft.put root 0 0).1 = .error (.format (.keyTooDeep 0)) := by decide +kernel
  rw [refused] at stored
  cases stored

end Session

end Forest

end Lexicon

/-
Module: Lexicon.Proofs.Forest.Parallel
Layer: Proofs
Purpose: Two arenas that hold the same tables at different places: what is done to both of them takes
  and gives back runs of the same lengths, so the one that had more to reuse stays the smaller one.
Imports: Lexicon.Proofs.Forest.Soundness
Trusted boundary: none
Main exports: Arena.Leaner, Tree.Alike, Parallel, Moves, Parallel.put, Parallel.eraseChild,
  Tree.Leads.moves
-/
import Lexicon.Proofs.Forest.Soundness

namespace Lexicon

/-!
An arena that was stored and read back has lost its free runs, and from then on new runs lie at other
places than in the arena that was kept.  The trees of the tables are the same but for those places.
The lengths of the runs that an operation takes and gives back depend on the labels in the trees
alone, hence they are the same on both sides.
-/

/-! ### Arenas with more to reuse -/

/-- One arena is no larger than another one, and has as many free runs of every length. -/
structure Arena.Leaner (lean fat : Arena) : Prop where
  size : lean.slots.size ≤ fat.slots.size
  spare : ∀ length, (fat.freeRuns length).length ≤ (lean.freeRuns length).length

namespace Arena

theorem freeRuns_release (arena : Arena) (offset : Nat) {length : Nat} (small : length < 33)
    (other : Nat) :
    (arena.release offset length).freeRuns other =
      if other = length then offset :: arena.freeRuns length else arena.freeRuns other :=
  arena.freeRuns_setIfInBounds small _ other

namespace Leaner

variable {lean fat lean' fat' : Arena}

theorem refl (arena : Arena) : Leaner arena arena := ⟨Nat.le_refl _, fun _ => Nat.le_refl _⟩

/-- Only sizes and free runs matter. -/
theorem congr (leaner : Leaner lean fat) (size : lean'.slots.size = lean.slots.size)
    (free : lean'.freeRuns = lean.freeRuns) (sizeFat : fat'.slots.size = fat.slots.size)
    (freeFat : fat'.freeRuns = fat.freeRuns) : Leaner lean' fat' := by
  refine ⟨?_, ?_⟩
  · rw [size, sizeFat]
    exact leaner.size
  · rw [free, freeFat]
    exact leaner.spare

theorem write (leaner : Leaner lean fat) (index other : Nat) (slot content : Slot) :
    Leaner (lean.write index slot) (fat.write other content) :=
  leaner.congr (size_write ..) rfl (size_write ..) rfl

theorem copy (leaner : Leaner lean fat) (source target count origin goal many : Nat) :
    Leaner (lean.copy source target count) (fat.copy origin goal many) :=
  leaner.congr (size_copy ..) rfl (size_copy ..) rfl

theorem release (leaner : Leaner lean fat) (offset other : Nat) {length : Nat}
    (small : length < 33) : Leaner (lean.release offset length) (fat.release other length) := by
  refine ⟨leaner.size, ?_⟩
  intro size
  rw [freeRuns_release _ _ small, freeRuns_release _ _ small]
  split
  next => exact Nat.succ_le_succ (leaner.spare length)
  next => exact leaner.spare size

/-- Where the one with less to reuse finds a run, the other one does too. -/
theorem alloc (leaner : Leaner lean fat) {length other : Nat} (small : length < 33)
    (allocated : fat.alloc length = (some other, fat')) :
    ∃ offset lean', lean.alloc length = (some offset, lean') ∧ Leaner lean' fat' := by
  have spare := leaner.spare length
  have size := leaner.size
  cases Arena.allocates_of_alloc allocated with
  | @reused _ others runs =>
      rw [runs, List.length_cons] at spare
      cases free : lean.freeRuns length with
      | nil =>
          rw [free] at spare
          cases spare
      | cons offset rest =>
          refine ⟨offset, _, (Arena.Allocates.reused free).alloc_eq, size, ?_⟩
          intro other
          rw [freeRuns_setIfInBounds _ small, freeRuns_setIfInBounds _ small]
          rw [free, List.length_cons] at spare
          split
          next => omega
          next => exact leaner.spare other
  | extended nothing room =>
      cases free : lean.freeRuns length with
      | nil =>
          refine ⟨_, _, (Arena.Allocates.extended free (by omega)).alloc_eq, ?_, leaner.spare⟩
          simpa using size
      | cons offset rest =>
          refine ⟨offset, _, (Arena.Allocates.reused free).alloc_eq, ?_, ?_⟩
          · simp only [Array.size_append, Array.size_replicate]
            omega
          · intro other
            show (fat.freeRuns other).length ≤ _
            rw [freeRuns_setIfInBounds _ small]
            split
            next same =>
              rw [same, nothing]
              exact Nat.zero_le _
            next => exact leaner.spare other

/-- What was read back has nothing to reuse. -/
theorem ofSlots (leaner : Leaner lean fat) : Leaner lean (Arena.ofSlots fat.slots) := by
  refine ⟨leaner.size, ?_⟩
  intro length
  rw [freeRuns_ofSlots]
  exact Nat.zero_le _

section Nodes

variable {node other run runFat spare spareFat : Nat} {labels : LabelSet} {label : Label}

theorem insertChild (leaner : Leaner lean fat) (child childFat : Slot)
    (here : lean.slot node = .node labels run spare)
    (hereFat : fat.slot other = .node labels runFat spareFat)
    (fresh : labels.contains label = false)
    (inserted : fat.insertChild other label childFat = (true, fat')) :
    ∃ lean', lean.insertChild node label child = (true, lean') ∧ Leaner lean' fat' := by
  have narrow : labels.size + 1 < 33 := Nat.succ_lt_succ (LabelSet.size_lt_of_lacking fresh)
  simp only [Arena.insertChild, hereFat, Slot.labels, Slot.run] at inserted
  simp only [Arena.insertChild, here, Slot.labels, Slot.run]
  split at inserted
  next => cases inserted
  next offset middle allocated =>
    obtain ⟨place, leanMiddle, found, middles⟩ := leaner.alloc narrow allocated
    cases inserted
    rw [found]
    refine ⟨_, rfl, Leaner.write ?_ _ _ _ _⟩
    split
    next => exact ((middles.copy _ _ _ _ _ _).write _ _ _ _).copy _ _ _ _ _ _
    next => exact (((middles.copy _ _ _ _ _ _).write _ _ _ _).copy _ _ _ _ _ _).release _ _ (by omega)

theorem eraseChild (leaner : Leaner lean fat)
    (here : lean.slot node = .node labels run spare)
    (hereFat : fat.slot other = .node labels runFat spareFat) :
    Leaner (lean.eraseChild node label) (fat.eraseChild other label) := by
  simp only [Arena.eraseChild, here, hereFat, Slot.labels, Slot.run]
  split
  next => exact (leaner.release _ _ (by omega)).write _ _ _ _
  next => exact ((leaner.copy _ _ _ _ _ _).release _ _ (by omega)).write _ _ _ _

theorem pushDown (leaner : Leaner lean fat) (node : Nat) {level : Nat} {key : Int32}
    (entry entryFat : Slot) (pushed : fat.pushDown other level key entryFat = (true, fat')) :
    ∃ lean', lean.pushDown node level key entry = (true, lean') ∧ Leaner lean' fat' := by
  unfold Arena.pushDown at pushed ⊢
  split at pushed
  next => cases pushed
  next offset middle allocated =>
    obtain ⟨place, leanMiddle, found, middles⟩ := leaner.alloc (by decide) allocated
    cases pushed
    rw [found]
    exact ⟨_, rfl, (middles.write _ _ _ _).write _ _ _ _⟩

end Nodes

end Leaner

end Arena

/-! ### Trees that differ in their places -/

namespace Tree

/-- Two trees have the same labels and keys.  Where their runs lie, the values and the tables nested
below may differ. -/
inductive Alike : Tree → Tree → Prop
  | absent : Alike .absent .absent
  | entry (key : Int32) {value other : Nat} {nested table : Option Nat} :
      Alike (.entry key value nested) (.entry key other table)
  | node {labels : LabelSet} {run other : Nat} {children further : Label → Tree}
      (below : ∀ label, Alike (children label) (further label)) :
      Alike (.node labels run children) (.node labels other further)

theorem Alike.refl (tree : Tree) : tree.Alike tree := by
  induction tree with
  | absent => exact .absent
  | entry key => exact .entry key
  | node labels run children ih => exact .node ih

theorem Alike.update {children further : Label → Tree} {label : Label} {new other : Tree}
    (below : ∀ label, (children label).Alike (further label)) (here : new.Alike other)
    (name : Label) :
    (Function.update children label new name).Alike (Function.update further label other name) := by
  by_cases same : name = label
  · subst same
    simpa using here
  · simpa [Function.update_of_ne same] using below name

theorem Alike.isNode {tree other : Tree} (alike : tree.Alike other) :
    tree.isNode = other.isNode := by
  cases alike <;> rfl

/-- What leads to a node is a node. -/
theorem Leads.isNode {key : Int32} {tree below : Tree}
    {level path index levelBelow pathBelow indexBelow : Nat}
    (leads : Leads key below levelBelow pathBelow indexBelow tree level path index)
    (node : below.isNode = true) : tree.isNode = true := by
  cases leads with
  | here => exact node
  | down => rfl

theorem Alike.bare : Tree.bare.Alike Tree.bare := .node fun _ => .absent

theorem Alike.lone {new other : Tree} (here : new.Alike other) (label : Label) (run further : Nat) :
    (Tree.lone label run new).Alike (Tree.lone label further other) :=
  .node (Alike.update (fun _ => .absent) here)

/-- What is like a node is a node with the same labels. -/
theorem Alike.exists_node {tree other : Tree} (alike : tree.Alike other)
    (node : tree.isNode = true) : ∃ labels run runOther children further,
      tree = .node labels run children ∧ other = .node labels runOther further := by
  cases alike with
  | absent => cases node
  | entry => cases node
  | node => exact ⟨_, _, _, _, _, rfl, rfl⟩

/-- What is like the entry of a key is an entry of it. -/
theorem Alike.exists_entry {tree : Tree} {key : Int32} {value : Nat} {nested : Option Nat}
    (alike : tree.Alike (.entry key value nested)) : ∃ old table, tree = .entry key old table := by
  cases alike with
  | entry => exact ⟨_, _, rfl⟩

end Tree

/-! ### Changing both -/

/-- Two arenas hold trees that are alike, at a slot each and apart from all else. -/
structure Parallel (lean fat : Arena) (tree other : Tree) (index place : Nat) : Prop where
  leaner : lean.Leaner fat
  alike : tree.Alike other
  held : tree.Holds lean.slot index
  heldFat : other.Holds fat.slot place
  apart : tree.Apart lean index
  apartFat : other.Apart fat place

/-- Two trees that are alike change, and are alike again. -/
structure Moves (lean leanAfter fat fatAfter : Arena) (tree other : Tree) (index place : Nat) :
    Prop where
  leaner : leanAfter.Leaner fatAfter
  trees : ∃ new further : Tree, new.Alike further ∧ Change lean leanAfter tree new index ∧
    Change fat fatAfter other further place

section Moving

variable {lean leanAfter fat fatAfter : Arena} {tree other : Tree} {index place run runFat : Nat}
  {labels : LabelSet} {children further : Label → Tree} {label : Label}

theorem Parallel.child
    (both : Parallel lean fat (.node labels run children) (.node labels runFat further) index place)
    (member : labels.contains label = true) :
    Parallel lean fat (children label) (further label) (run + labels.rank label.val)
      (runFat + labels.rank label.val) := by
  obtain ⟨leaner, alike, held, heldFat, apart, apartFat⟩ := both
  cases alike with
  | node below =>
      exact ⟨leaner, below label, held.2.2 label, heldFat.2.2 label, apart.child member,
        apartFat.child member⟩

/-- Where the child on the larger side is an entry, so is the other one, for the same key. -/
theorem Parallel.child_entry {resident : Int32} {valueFat : Nat} {nestedFat : Option Nat}
    (both : Parallel lean fat (.node labels run children) (.node labels runFat further) index place)
    (member : labels.contains label = true)
    (here : fat.slot (runFat + labels.rank label.val) = .entry resident valueFat nestedFat) :
    ∃ old nested, children label = .entry resident old nested ∧
      further label = .entry resident valueFat nestedFat ∧
      Parallel lean fat (.entry resident old nested) (.entry resident valueFat nestedFat)
        (run + labels.rank label.val) (runFat + labels.rank label.val) := by
  have below := both.child member
  have shapeFat := both.heldFat.child_eq_entry member here
  rw [shapeFat] at below
  obtain ⟨old, nested, shape⟩ := below.alike.exists_entry
  exact ⟨old, nested, shape, shapeFat, shape ▸ below⟩

/-- Children that move move their parents. -/
theorem Moves.child
    (both : Parallel lean fat (.node labels run children) (.node labels runFat further) index place)
    (member : labels.contains label = true)
    (moves : Moves lean leanAfter fat fatAfter (children label) (further label)
      (run + labels.rank label.val) (runFat + labels.rank label.val)) :
    Moves lean leanAfter fat fatAfter (.node labels run children) (.node labels runFat further) index
      place := by
  obtain ⟨leaner, new, newFat, alike, change, changeFat⟩ := moves
  have below := both.alike
  cases below with
  | node below =>
      exact ⟨leaner, _, _, .node (Tree.Alike.update below alike),
        change.child both.held both.apart member, changeFat.child both.heldFat both.apartFat member⟩

/-- A value replaced on both sides, or a table nested below the entries of a key. -/
theorem Parallel.write {key : Int32} {value valueFat old oldFat : Nat}
    {nested nestedFat table tableFat : Option Nat}
    (both : Parallel lean fat (.entry key old table) (.entry key oldFat tableFat) index place)
    (storable : lean.Sane → (Slot.entry key value nested).Storable)
    (storableFat : fat.Sane → (Slot.entry key valueFat nestedFat).Storable) :
    Moves lean (lean.write index (.entry key value nested)) fat
      (fat.write place (.entry key valueFat nestedFat)) (.entry key old table)
      (.entry key oldFat tableFat) index place :=
  ⟨both.leaner.write _ _ _ _, _, _, .entry key, change_write both.apart storable,
    change_write both.apartFat storableFat⟩

/-- A value that fits replaced on both sides; the nested tables stay. -/
theorem Parallel.replace {key : Int32} {value old oldFat : Nat} {nested nestedFat : Option Nat}
    (fits : value ≤ Forest.maxValue)
    (both : Parallel lean fat (.entry key old nested) (.entry key oldFat nestedFat) index place) :
    Moves lean (lean.write index (.entry key value nested)) fat
      (fat.write place (.entry key value nestedFat)) (.entry key old nested)
      (.entry key oldFat nestedFat) index place := by
  exact both.write (fun sane => sane.storable_entry both.held fits)
    fun sane => sane.storable_entry both.heldFat fits

theorem Parallel.insertChild {key : Int32} {value : Nat} (fits : value ≤ Forest.maxValue)
    (both : Parallel lean fat (.node labels run children) (.node labels runFat further) index place)
    (fresh : labels.contains label = false)
    (inserted : fat.insertChild place label (.entry key value none) = (true, fatAfter)) :
    ∃ leanAfter, lean.insertChild index label (.entry key value none) = (true, leanAfter) ∧
      Moves lean leanAfter fat fatAfter (.node labels run children) (.node labels runFat further)
        index place := by
  obtain ⟨spare, here⟩ := both.held.1
  obtain ⟨spareFat, hereFat⟩ := both.heldFat.1
  have storable : (Slot.entry key value none).Storable := ⟨fits, by simp⟩
  obtain ⟨leanAfter, done, leaner⟩ :=
    both.leaner.insertChild _ _ here hereFat fresh inserted
  obtain ⟨_, new, change⟩ := change_insertChild both.held both.apart fresh storable done
  obtain ⟨_, newFat, changeFat⟩ :=
    change_insertChild both.heldFat both.apartFat fresh storable inserted
  have below := both.alike
  cases below with
  | node below =>
      exact ⟨leanAfter, done, leaner, _, _, .node (Tree.Alike.update below (.entry key)), change,
        changeFat⟩

theorem Parallel.pushDown {key : Int32} {value valueFat level : Nat} {nested nestedFat : Option Nat}
    (both : Parallel lean fat (.entry key value nested) (.entry key valueFat nestedFat) index place)
    (pushed : fat.pushDown place level key (.entry key valueFat nestedFat) = (true, fatAfter)) :
    ∃ leanAfter, lean.pushDown index level key (.entry key value nested) = (true, leanAfter) ∧
      leanAfter.Leaner fatAfter ∧ ∃ run runFat,
        let new := Tree.lone (Label.ofKey key (level + 1)) run (.entry key value nested)
        let newFat := Tree.lone (Label.ofKey key (level + 1)) runFat (.entry key valueFat nestedFat)
        Change lean leanAfter (.entry key value nested) new index ∧
          Change fat fatAfter (.entry key valueFat nestedFat) newFat place := by
  obtain ⟨leanAfter, done, leaner⟩ :=
    both.leaner.pushDown index (.entry key value nested) _ pushed
  obtain ⟨_, run, change⟩ := change_pushDown both.held both.apart done
  obtain ⟨_, runFat, changeFat⟩ := change_pushDown both.heldFat both.apartFat pushed
  exact ⟨leanAfter, done, leaner, run, runFat, change, changeFat⟩

/-- Both trees stand again where they moved to. -/
theorem Parallel.after {new newFat : Tree} (both : Parallel lean fat tree other index place)
    (leaner : leanAfter.Leaner fatAfter) (alike : new.Alike newFat)
    (change : Change lean leanAfter tree new index)
    (changeFat : Change fat fatAfter other newFat place) :
    Parallel leanAfter fatAfter new newFat index place :=
  ⟨leaner, alike, change.held, changeFat.held, change.apart both.apart,
    changeFat.apart both.apartFat⟩

theorem Moves.after {middle middleFat : Arena} {new newFat : Tree}
    (change : Change lean middle tree new index) (changeFat : Change fat middleFat other newFat place)
    (moves : Moves middle leanAfter middleFat fatAfter new newFat index place) :
    Moves lean leanAfter fat fatAfter tree other index place := by
  obtain ⟨leaner, last, lastFat, alike, later, laterFat⟩ := moves
  exact ⟨leaner, last, lastFat, alike, change.trans later, changeFat.trans laterFat⟩

end Moving

/-- Storing a value moves both trees, and where the larger arena has room for it, so has the other
one. -/
theorem Parallel.stores {key : Int32} {value remaining level index place : Nat}
    {lean fat fatAfter : Forest} {tree other : Tree} {answer : Except Error Unit}
    (both : Parallel lean.arena fat.arena tree other index place) (node : tree.isNode = true)
    (fits : value ≤ Forest.maxValue)
    (stores : Forest.Stores key value remaining level place fat answer fatAfter)
    (done : answer = .ok ()) :
    ∃ leanAfter, Forest.Stores key value remaining level index lean (.ok ()) leanAfter ∧
      Moves lean.arena leanAfter.arena fat.arena fatAfter.arena tree other index place := by
  induction stores generalizing lean index tree other with
  | bottom => cases done
  | refused => cases done
  | clashed => cases done
  | blocked => cases done
  | inserted missing insertion =>
      obtain ⟨arena, count⟩ := lean
      obtain ⟨labels, run, runFat, children, further, rfl, rfl⟩ := both.alike.exists_node node
      rw [both.heldFat.parts.1] at missing
      obtain ⟨leanAfter, done, moves⟩ := both.insertChild fits missing insertion
      rw [← both.held.parts.1] at missing
      exact ⟨⟨leanAfter, count + 1⟩, .inserted missing done, moves⟩
  | replaced step here =>
      obtain ⟨arena, count⟩ := lean
      obtain ⟨labels, run, runFat, children, further, rfl, rfl⟩ := both.alike.exists_node node
      obtain ⟨member, rfl⟩ := both.heldFat.descends step
      obtain ⟨old, nested, shape, shapeFat, below⟩ := both.child_entry member here
      refine ⟨_, .replaced (both.held.descend member) below.held, .child both member ?_⟩
      rw [shape, shapeFat]
      exact below.replace fits
  | pushed step here differ pushing _ ih =>
      obtain ⟨arena, count⟩ := lean
      obtain ⟨labels, run, runFat, children, further, rfl, rfl⟩ := both.alike.exists_node node
      obtain ⟨member, rfl⟩ := both.heldFat.descends step
      obtain ⟨old, nested, shape, shapeFat, below⟩ := both.child_entry member here
      -- The new nodes are alike, so the rest is done below them on both sides.
      obtain ⟨middle, pushingLean, leaner, new, newFat, change, changeFat⟩ := below.pushDown pushing
      have lone : Parallel (Forest.mk middle count).arena _ _ _ _ _ :=
        below.after leaner ((Tree.Alike.entry _).lone _ new newFat) change changeFat
      obtain ⟨leanAfter, storing, moves⟩ := ih lone rfl done
      refine ⟨leanAfter, .pushed (both.held.descend member) below.held differ pushingLean storing,
        .child both member ?_⟩
      rw [shape, shapeFat]
      exact moves.after change changeFat
  | descended step inner _ ih =>
      obtain ⟨arena, count⟩ := lean
      obtain ⟨labels, run, runFat, children, further, rfl, rfl⟩ := both.alike.exists_node node
      obtain ⟨member, rfl⟩ := both.heldFat.descends step
      have below : Parallel (Forest.mk arena count).arena _ _ _ _ _ := both.child member
      obtain ⟨_, _, _, shapeFat⟩ := both.heldFat.child_eq_node member inner
      have isNode := below.alike.isNode.trans (congrArg Tree.isNode shapeFat)
      obtain ⟨_, _, _, _, _, shape, _⟩ := below.alike.exists_node isNode
      obtain ⟨leanAfter, storing, moves⟩ := ih below isNode done
      have held := below.held
      rw [shape] at held
      exact ⟨leanAfter, .descended (both.held.descend member) held.isEntry_eq_false storing,
        .child both member moves⟩

theorem Parallel.put {lean fat : Forest} {table beside : Table} {tree other : Tree} (key : Int32)
    {value : Nat} (both : Parallel lean.arena fat.arena tree other table.slot beside.slot)
    (node : tree.isNode = true) (fits : value ≤ Forest.maxValue)
    (done : (fat.put beside key value).1 = .ok ()) :
    (lean.put table key value).1 = .ok () ∧
      Moves lean.arena (lean.put table key value).2.arena fat.arena
        (fat.put beside key value).2.arena tree other table.slot beside.slot := by
  obtain ⟨leanAfter, storing, moves⟩ :=
    both.stores node fits (Forest.stores_put fat beside key fits) done
  rw [storing.put_eq fits]
  exact ⟨rfl, moves⟩

/-! ### Entries that both sides have -/

section Entries

variable {lean leanAfter fat fatAfter : Arena} {tree other : Tree} {index place run runFat : Nat}
  {labels : LabelSet} {children further : Label → Tree}

theorem Tree.Alike.pruned
    (alike : (Tree.node labels run children).Alike (.node labels runFat further)) (label : Label) :
    (Tree.pruned labels run children label).Alike (Tree.pruned labels runFat further label) := by
  cases alike with
  | node below =>
      unfold Tree.pruned
      split
      next => exact Tree.Alike.bare
      next => exact .node (Tree.Alike.update below .absent)

/-- An entry erased on both sides. -/
theorem Parallel.eraseChild {label : Label} {key : Int32} {value valueFat : Nat}
    {nested nestedFat : Option Nat}
    (both : Parallel lean fat (.node labels run children) (.node labels runFat further) index place)
    (entry : children label = .entry key value nested)
    (entryFat : further label = .entry key valueFat nestedFat) :
    Moves lean (lean.eraseChild index label) fat (fat.eraseChild place label)
      (.node labels run children) (.node labels runFat further) index place := by
  obtain ⟨spare, here⟩ := both.held.1
  obtain ⟨spareFat, hereFat⟩ := both.heldFat.1
  exact ⟨both.leaner.eraseChild here hereFat, _, _, both.alike.pruned label,
    change_pruned both.held both.apart entry, change_pruned both.heldFat both.apartFat entryFat⟩

/-- The ways to the entry of a key in two trees that are alike lead down to nodes that are alike, and
what moves these moves the trees. -/
theorem Tree.Leads.moves {key : Int32} {labelsFat : LabelSet} {level path pathFat levelBelow
    pathBelow indexBelow levelFat pathBelowFat placeBelow : Nat} {value valueFat : Nat}
    {nested nestedFat : Option Nat}
    (leads : Leads key (.node labels run children) levelBelow pathBelow indexBelow tree level path
      index)
    (entry : children (Label.ofKey key levelBelow) = .entry key value nested)
    (leadsFat : Leads key (.node labelsFat runFat further) levelFat pathBelowFat placeBelow other level
      pathFat place)
    (entryFat : further (Label.ofKey key levelFat) = .entry key valueFat nestedFat)
    (both : Parallel lean fat tree other index place) :
    levelFat = levelBelow ∧ labelsFat = labels ∧
      Parallel lean fat (.node labels run children) (.node labelsFat runFat further) indexBelow
        placeBelow ∧
      ∀ {leanAfter fatAfter : Arena},
        Moves lean leanAfter fat fatAfter (.node labels run children)
          (.node labelsFat runFat further) indexBelow placeBelow →
        Moves lean leanAfter fat fatAfter tree other index place := by
  have alike := both.alike
  induction leads generalizing other pathFat place with
  | here =>
      cases leadsFat with
      | here =>
          cases alike with
          | node => exact ⟨rfl, rfl, both, id⟩
      | down _ deeper =>
          cases alike with
          | node below =>
              -- A way that leads further on one side would pass a node where the
              -- other one ends at an entry.
              have entries := (below (Label.ofKey key levelBelow)).isNode
              rw [entry, deeper.isNode rfl] at entries
              cases entries
  | down member deeper ih =>
      cases leadsFat with
      | here =>
          cases alike with
          | node below =>
              have entries := (below (Label.ofKey key levelFat)).isNode
              rw [entryFat, deeper.isNode rfl] at entries
              cases entries
      | down _ deeperFat =>
          cases alike with
          | node below =>
              obtain ⟨sameLevel, sameLabels, found, lifts⟩ :=
                ih deeperFat (both.child member) (below _)
              exact ⟨sameLevel, sameLabels, found, fun moves => Moves.child both member (lifts moves)⟩

/-- The entries of a key, found on both sides. -/
structure Forest.FoundBoth (key : Int32) (tree other : Tree) (index indexFat : Nat)
    (place placeFat : Forest.Place) (value valueFat : Nat) (nested nestedFat : Option Nat) : Prop where
  found : ∃ labels run children path,
    Forest.Found key tree 0 0 index place labels run children value nested path
  foundFat : ∃ labels run children path,
    Forest.Found key other 0 0 indexFat placeFat labels run children valueFat nestedFat path

namespace Forest.FoundBoth

variable {key : Int32} {place placeFat : Forest.Place} {value valueFat : Nat}
  {nested nestedFat : Option Nat} {indexFat : Nat}

/-- Erasing a key moves both trees. -/
theorem erase
    (found : FoundBoth key tree other index indexFat place placeFat value valueFat nested nestedFat)
    (both : Parallel lean fat tree other index indexFat) :
    Moves lean (lean.eraseChild place.parent (Label.ofKey key place.level)) fat
      (fat.eraseChild placeFat.parent (Label.ofKey key placeFat.level)) tree other index indexFat := by
  obtain ⟨⟨_, _, _, _, found⟩, ⟨_, _, _, _, foundFat⟩⟩ := found
  obtain ⟨sameLevel, rfl, nodes, lifts⟩ :=
    found.leads.moves found.entry foundFat.leads foundFat.entry both
  have entryFat := foundFat.entry
  rw [sameLevel] at entryFat ⊢
  exact lifts (nodes.eraseChild found.entry entryFat)

/-- Tables nested below a key that had none move both trees. -/
theorem nest {offset offsetFat : Nat}
    (found : FoundBoth key tree other index indexFat place placeFat value valueFat none none)
    (both : Parallel lean fat tree other index indexFat) (top : offset ≠ 0) (topFat : offsetFat ≠ 0)
    (inside : offset < lean.slots.size) (insideFat : offsetFat < fat.slots.size) :
    Moves lean (lean.write place.slot (.entry key value (some offset))) fat
      (fat.write placeFat.slot (.entry key valueFat (some offsetFat))) tree other index indexFat := by
  obtain ⟨⟨_, _, _, _, found⟩, ⟨_, _, _, _, foundFat⟩⟩ := found
  obtain ⟨sameLevel, rfl, nodes, lifts⟩ :=
    found.leads.moves found.entry foundFat.leads foundFat.entry both
  have entryFat := foundFat.entry
  have slotFat := foundFat.slot
  rw [sameLevel] at entryFat slotFat
  have entries := nodes.child found.member
  rw [found.entry, entryFat, ← found.slot, ← slotFat] at entries
  refine lifts (Moves.child nodes found.member ?_)
  rw [found.entry, entryFat, ← found.slot, ← slotFat]
  exact ⟨entries.leaner.write _ _ _ _, _, _, .entry key,
    Forest.change_nest entries.held entries.apart top inside,
    Forest.change_nest entries.heldFat entries.apartFat topFat insideFat⟩

end Forest.FoundBoth

end Entries

end Lexicon

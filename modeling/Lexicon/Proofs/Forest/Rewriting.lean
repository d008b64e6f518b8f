/-
Module: Lexicon.Proofs.Forest.Rewriting
Layer: Proofs
Purpose: When a forest that was read from any accepted bytes, and then used, can be written and read
  again.
Imports: Lexicon.Proofs.Forest.Loading, Lexicon.Proofs.Forest.Tiling
Trusted boundary: none
Main exports: Forest.Attains, Forest.Enclosed, Forest.StrayNames, Forest.Coherent.held_of_attains,
  Forest.Session.rewritten_of_read
-/
import Lexicon.Proofs.Forest.Loading
import Lexicon.Proofs.Forest.Tiling

namespace Lexicon

/-!
The checks look at all slots, also at those to which the root does not lead.  These strays never change
when the forest is used, but what they refer to may: a stray entry may name a slot in a run of the
root's own tables as its nested table.  For as long as a node stands there nothing is wrong with that.
When the run is closed or moved an entry may come to stand in its place, and from then on the forest is
written in a form that is refused.  Nothing else can go wrong.
-/

namespace Forest

/-! ### Where the root leads, slot by slot -/

/-- The slots to which the root leads: its own, the children of nodes, and the tables nested below
entries. -/
inductive Attains (arena : Arena) : (index : Nat) → Prop
  | top : Attains arena 0
  | child {node : Nat} {label : Label} (above : Attains arena node)
      (member : (arena.slot node).labels.contains label = true) :
      Attains arena ((arena.slot node).child label)
  | nested {index value table : Nat} {key : Int32} (above : Attains arena index)
      (here : arena.slot index = .entry key value (some table)) : Attains arena table

/-- The slots in the runs of the nodes to which the root leads. -/
def Enclosed (arena : Arena) (index : Nat) : Prop :=
  ∃ node label, Attains arena node ∧ (arena.slot node).labels.contains label = true ∧
    index = (arena.slot node).child label

/-- The slots that stray entries, to which the root does not lead, name as their nested tables. -/
def StrayNames (arena : Arena) (table : Nat) : Prop :=
  ∃ index key value, ¬ Attains arena index ∧ arena.slot index = .entry key value (some table)

theorem Enclosed.attains {arena : Arena} {index : Nat} (enclosed : Enclosed arena index) :
    Attains arena index := by
  obtain ⟨node, label, above, member, rfl⟩ := enclosed
  exact .child above member

end Forest

/-! ### Inside a tree -/

namespace Tree

/-- A slot that a node claims is that of a child, or a child claims it. -/
theorem exists_of_claims {labels : LabelSet} {run other : Nat} {children : Label → Tree}
    (known : ∀ label, labels.contains label = (children label).present)
    (claimed : 0 < (node labels run children).claims other) :
    ∃ label, labels.contains label = true ∧
      (other = run + labels.rank label.val ∨ 0 < (children label).claims other) := by
  by_cases inside : run ≤ other ∧ other < run + labels.size
  · obtain ⟨label, member, placed⟩ : ∃ label : Label, labels.contains label = true ∧
        labels.rank label.val = other - run := LabelSet.exists_rank_eq (by omega)
    exact ⟨label, member, Or.inl (by omega)⟩
  · rw [claims, covers_of_not_mem (by omega), Nat.zero_add] at claimed
    obtain ⟨label, _, below⟩ := Finset.sum_pos_iff.mp claimed
    refine ⟨label, ?_, Or.inr below⟩
    cases shape : children label with
    | absent => rw [shape] at below; cases below
    | entry => rw [shape] at below; cases below
    | node => rw [known, shape]; rfl

/-- At each slot of a tree stands a part of it. -/
theorem exists_part {slot : Nat → Slot} {tree : Tree} {index other : Nat}
    (present : tree.present = true) (held : tree.Holds slot index)
    (within : other = index ∨ 0 < tree.claims other) :
    ∃ part : Tree, part.present = true ∧ part.Holds slot other ∧
      (∀ place, part.claims place ≤ tree.claims place) ∧
      ∀ place, part.refers place ≤ tree.refers place := by
  induction tree generalizing index with
  | absent => cases present
  | entry =>
      rcases within with rfl | claimed
      · exact ⟨_, present, held, fun _ => Nat.le_refl _, fun _ => Nat.le_refl _⟩
      · cases claimed
  | node labels run children ih =>
      rcases within with rfl | claimed
      · exact ⟨_, present, held, fun _ => Nat.le_refl _, fun _ => Nat.le_refl _⟩
      · obtain ⟨_, known, below⟩ := held
        obtain ⟨label, member, within⟩ := exists_of_claims known claimed
        obtain ⟨part, there, heldPart, claims, refers⟩ :=
          ih label ((known label).symm.trans member) (below label) within
        refine ⟨part, there, heldPart, fun place => ?_, fun place => ?_⟩
        · have least := claims_child_le children label place
          have less := claims place
          simp only [Tree.claims]
          omega
        · exact Nat.le_trans (refers place) (Finset.single_le_sum
            (f := fun label => (children label).refers place) (fun _ _ => Nat.zero_le _)
            (Finset.mem_univ label))

end Tree

namespace Forest

/-- Where the root leads to a tree it leads to all of its runs. -/
theorem enclosed_of_claims {arena : Arena} {tree : Tree} {index other : Nat}
    (above : Attains arena index) (held : tree.Holds arena.slot index)
    (claimed : 0 < tree.claims other) : Enclosed arena other := by
  induction tree generalizing index with
  | absent => cases claimed
  | entry => cases claimed
  | node labels run children ih =>
      obtain ⟨⟨spare, here⟩, known, below⟩ := held
      obtain ⟨label, member, within⟩ := Tree.exists_of_claims known claimed
      have led : (arena.slot index).labels.contains label = true := by rw [here]; exact member
      have place : (arena.slot index).child label = run + labels.rank label.val := by rw [here]; rfl
      rcases within with rfl | deeper
      · exact ⟨index, label, above, led, place.symm⟩
      · exact ih label (place ▸ Attains.child above led) (below label) deeper

/-! ### Slots that are held -/

/-- Whether a slot belongs to one of some tables. -/
def Held (tables : Finset Table) (tree : Table → Tree) (index : Nat) : Prop :=
  ∃ table ∈ tables, index = table.slot ∨ 0 < (tree table).claims index

section Reached

variable {loose : Prop} {forest : Forest} {arena : Arena} {tables : Finset Table}
  {tree : Table → Tree} {table : Table} {index : Nat}

/-- A table in which an entry of some table is nested is one of the tables. -/
theorem Coherent.mem_of_held (sound : Coherent loose forest tables)
    (laid : Standing loose forest.arena tables tree) {key : Int32} {value nested : Nat}
    (held : Held tables tree index) (here : forest.arena.slot index = .entry key value (some nested)) :
    (⟨nested⟩ : Table) ∈ tables := by
  obtain ⟨table, member, within⟩ := held
  obtain ⟨labels, run, children, shape⟩ := laid.exists_node member
  obtain ⟨part, present, heldPart, _, refers⟩ :=
    Tree.exists_part (by rw [shape]; rfl) (laid.held table member) within
  have referred : 0 < (tree table).refers nested := by
    refine Nat.lt_of_lt_of_le ?_ (refers nested)
    cases part with
    | absent => cases present
    | entry resident old further =>
        cases (show forest.arena.slot index = .entry resident old further from heldPart).symm.trans
          here
        simp [Tree.refers]
    | node =>
        obtain ⟨spare, node⟩ := heldPart.1
        cases node.symm.trans here
  exact ((sound.refers_le_one laid nested).2
    (Finset.sum_pos_iff.mpr ⟨table, member, referred⟩)).1

/-- The root leads only to slots of the tables. -/
theorem Coherent.held_of_attains (sound : Coherent loose forest tables)
    (laid : Standing loose forest.arena tables tree) (attained : Attains forest.arena index) :
    Held tables tree index := by
  induction attained with
  | top => exact ⟨root, sound.rooted, Or.inl rfl⟩
  | @child node label above led ih =>
      obtain ⟨table, member, within⟩ := ih
      obtain ⟨labels, run, children, shape⟩ := laid.exists_node member
      -- The node above is part of a table's tree, and so its run belongs to the table, too.
      obtain ⟨part, present, heldPart, claims, _⟩ :=
        Tree.exists_part (by rw [shape]; rfl) (laid.held table member) within
      refine ⟨table, member, Or.inr (Nat.lt_of_lt_of_le ?_ (claims _))⟩
      cases part with
      | absent => cases present
      | entry resident old further =>
          rw [show forest.arena.slot node = .entry resident old further from heldPart] at led
          simp [Slot.labels] at led
      | node labels run children =>
          obtain ⟨spare, here⟩ := heldPart.1
          rw [here] at led ⊢
          have inside := LabelSet.rank_lt_size led
          have covered : covers run labels.size (run + labels.rank label.val) = 1 :=
            covers_of_mem (by omega) (by simpa [Slot.labels] using inside)
          simp only [Tree.claims, Slot.child, Slot.run, Slot.labels, covered]
          omega
  | nested above here ih => exact ⟨_, sound.mem_of_held laid ih here, Or.inl rfl⟩

/-- The root leads to the entries of the tables that it leads to. -/
theorem Finds.attains {key : Int32} {remaining level node : Nat} {place : Place}
    (finds : Finds arena key remaining level node place) (above : Attains arena node) :
    Attains arena place.slot := by
  induction finds with
  | here step => exact step.child ▸ .child above step.member
  | descended step _ _ ih => exact ih (step.child ▸ .child above step.member)

/-- The root leads to the slots of the tables that it leads to. -/
theorem Reaches.attains (reached : forest.Reaches table) : Attains forest.arena table.slot := by
  induction reached with
  | top => exact .top
  | @nested table below key above has ih =>
      unfold nested? at has
      split at has
      next => cases has
      next place located =>
        split at has
        next found value inner here =>
          obtain ⟨slot, rfl, rfl⟩ := Option.map_eq_some_iff.mp has
          exact .nested ((finds_of_locateFrom levels located).attains ih) here
        next => cases has

/-- The root leads to all slots of the tables that it leads to. -/
theorem Held.attains (laid : Standing loose forest.arena tables tree)
    (reached : ∀ table ∈ tables, forest.Reaches table) (held : Held tables tree index) :
    Attains forest.arena index := by
  obtain ⟨table, member, rfl | claimed⟩ := held
  · exact (reached table member).attains
  · exact (enclosed_of_claims (reached table member).attains (laid.held table member)
      claimed).attains

/-- Where nothing is parked, a slot of no table has no holder. -/
theorem tally_eq_zero (used : arena.parked index = 0) (inside : index < arena.slots.size)
    (unheld : ¬ Held tables tree index) : tally arena tables tree index = 0 := by
  have none : ∑ table ∈ tables, (covers table.slot 1 index + (tree table).claims index) = 0 := by
    apply Finset.sum_eq_zero
    intro table member
    have elsewhere : index ≠ table.slot := fun same => unheld ⟨table, member, Or.inl same⟩
    have unclaimed : ¬ 0 < (tree table).claims index :=
      fun claimed => unheld ⟨table, member, Or.inr claimed⟩
    rw [covers_of_not_mem (by omega)]
    omega
  rw [tally, none, Arena.available, if_pos inside, used]

end Reached

/-! ### What was read -/

section Reading

variable {forest : Forest} {tables named : Finset Table} {tree : Table → Tree} {index : Nat}

theorem Readable.parked (readable : forest.Readable) (index : Nat) :
    forest.arena.parked index = 0 := by
  rw [readable.arena_eq]
  exact Arena.parked_ofSlots _ index

/-- Every slot of an accepted forest refers to a table of the root, or to what a stray entry names. -/
theorem Readable.tidy (readable : forest.Readable) (sound : Coherent True forest tables)
    (all : ∀ table, StrayNames forest.arena table → (⟨table⟩ : Table) ∈ named) :
    forest.arena.Tidy (named ∪ tables) := by
  obtain ⟨tree, laid⟩ := sound.laid
  refine ⟨fun index => ?_, fun length run among => ?_⟩
  · cases here : forest.arena.slot index with
    | node labels run spare =>
        by_cases inside : index < forest.arena.slots.size
        · exact node_of_checkSlots readable.checked inside here
        · rw [Arena.slot_of_size_le (Nat.le_of_not_lt inside)] at here
          exact here ▸ Slot.Fits.empty
    | entry key value nested =>
        rintro table rfl
        by_cases attained : Attains forest.arena index
        · exact Finset.mem_union_right _
            (sound.mem_of_held laid (sound.held_of_attains laid attained) here)
        · exact Finset.mem_union_left _ (all table ⟨index, key, value, attained, here⟩)
  · rw [readable.arena_eq, Arena.freeRuns_ofSlots] at among
    cases among

end Reading

namespace Session

section Steps

variable {loose : Prop} {session : Session} {named : Finset Table}

/-- Whatever is asked, every slot refers to what is there. -/
theorem tidy_step (sound : Coherent loose session.forest session.handles.toFinset)
    (tidy : session.forest.arena.Tidy (named ∪ session.handles.toFinset)) (request : Request) :
    (session.step request).2.forest.arena.Tidy
      (named ∪ (session.step request).2.handles.toFinset) := by
  cases request with
  | put table key value => exact tidy_put tidy (session.table table) key value
  | get => exact tidy
  | contains => exact tidy
  | erase table key => exact tidy_erase tidy (session.table table) key
  | nested table key =>
      rw [step_nested_eq sound]
      exact tidy
  | createNested table key =>
      have created := tidy_createNested tidy (session.table table) key
      rw [step_createNested_eq, forest_hand, toFinset_hand]
      generalize session.forest.createNested? (session.table table) key = outcome at created ⊢
      obtain ⟨nested, after⟩ := outcome
      cases nested with
      | none => exact created
      | some fresh =>
          rw [Finset.union_insert]
          exact created

/-- Whatever is asked, no slot and no table goes away. -/
theorem step_grows (sound : Coherent loose session.forest session.handles.toFinset)
    (request : Request) :
    session.forest.slotCount ≤ (session.step request).2.forest.slotCount ∧
      session.handles ⊆ (session.step request).2.handles := by
  cases request with
  | put table key value => exact ⟨slotCount_le_put _ _ _ _, List.Subset.refl _⟩
  | get => exact ⟨Nat.le_refl _, List.Subset.refl _⟩
  | contains => exact ⟨Nat.le_refl _, List.Subset.refl _⟩
  | erase table key => exact ⟨Nat.le_of_eq (slotCount_erase _ _ _).symm, List.Subset.refl _⟩
  | nested table key =>
      rw [step_nested_eq sound]
      exact ⟨Nat.le_refl _, List.Subset.refl _⟩
  | createNested table key =>
      rw [step_createNested_eq, forest_hand]
      exact ⟨(slotCount_createNested session.forest (session.table table) key).1,
        fun _ member => mem_handles_hand.mpr (.inl member)⟩

/-- The same after any requests. -/
theorem tidy_run {atlas : Atlas} (reflects : Reflects loose session atlas)
    (tidy : session.forest.arena.Tidy (named ∪ session.handles.toFinset))
    (requests : List Request) :
    (session.run requests).2.forest.arena.Tidy
        (named ∪ (session.run requests).2.handles.toFinset) ∧
      session.forest.slotCount ≤ (session.run requests).2.forest.slotCount ∧
      session.handles ⊆ (session.run requests).2.handles := by
  induction requests generalizing session atlas with
  | nil => exact ⟨tidy, Nat.le_refl _, List.Subset.refl _⟩
  | cons request requests ih =>
      obtain ⟨next, _, reflectsAfter⟩ := reflects.step request
      obtain ⟨tidyLast, size, handles⟩ := ih reflectsAfter (tidy_step reflects.sound tidy request)
      obtain ⟨grown, kept⟩ := step_grows reflects.sound request
      exact ⟨tidyLast, Nat.le_trans grown size, List.Subset.trans kept handles⟩

end Steps

/-! ### Reading again -/

section Rereading

variable {session : Session} {atlas : Atlas} {table : Nat}

open Classical in
/-- The slots that stray entries name, as tables. -/
theorem exists_named (readable : session.forest.Readable) :
    ∃ named : Finset Table, ∀ table, StrayNames session.forest.arena table ↔ ⟨table⟩ ∈ named := by
  refine ⟨((Finset.range session.forest.arena.slots.size).filter
    (StrayNames session.forest.arena)).image Table.mk, fun table => ?_⟩
  rw [Finset.mem_image]
  constructor
  · rintro ⟨index, key, value, stray, here⟩
    have below := ((entry_of_checkSlots readable.checked here).2 table rfl).1
    exact ⟨table, Finset.mem_filter.mpr
      ⟨Finset.mem_range.mpr below, index, key, value, stray, here⟩, rfl⟩
  · rintro ⟨other, among, same⟩
    cases same
    exact (Finset.mem_filter.mp among).2

/-- An accepted forest that was used is accepted again, once it is written, if there is no entry where
a stray entry names a table.  The number of entries that is written does not matter for that. -/
theorem reread (readable : session.forest.Readable) (reflects : Reflects True session atlas)
    (requests : List Request) (count : Nat)
    (nodes : ∀ table, StrayNames session.forest.arena table →
      ((session.run requests).2.forest.arena.slot table).isEntry = false) :
    CheckedReader.Takes read { (session.run requests).2.forest with count := count }.encode
      ⟨Arena.ofSlots (session.run requests).2.forest.arena.slots,
        count % LittleEndian.span 8⟩ := by
  obtain ⟨named, strays⟩ := exists_named readable
  obtain ⟨tidy, size, _⟩ :=
    tidy_run reflects (readable.tidy reflects.sound fun table => (strays table).mp) requests
  obtain ⟨last, reflectsLast⟩ := reflects.run requests
  obtain ⟨tree, laid⟩ := reflectsLast.sound.laid
  have filled := Nat.pos_of_ne_zero readable.filled
  have reachable : checkReachable (session.run requests).2.forest.arena.slots = .ok () :=
    checkReachable_eq_ok reflectsLast.sound
  refine takes_read_mod laid.sane (Nat.ne_of_gt (Nat.lt_of_lt_of_le filled size))
    (checkSlots_of_fits laid.sane tidy.fits (laid.isEntry_slot reflectsLast.sound.rooted).2 ?_)
    reachable
  intro table member
  rcases Finset.mem_union.mp member with stray | handed
  · obtain ⟨index, key, value, apart, here⟩ := (strays table.slot).mpr stray
    have below := ((entry_of_checkSlots readable.checked here).2 table.slot rfl).1
    exact ⟨Nat.lt_of_lt_of_le below size, nodes _ ((strays table.slot).mpr stray)⟩
  · exact laid.isEntry_slot handed

/-- A slot to which the root of an accepted forest did not lead is left as it is. -/
theorem slot_run_of_stray (readable : session.forest.Readable)
    (reflects : Reflects True session atlas)
    (whole : ∀ table, table ∈ session.handles ↔ session.forest.Reaches table)
    (requests : List Request) {index : Nat} (inside : index < session.forest.arena.slots.size)
    (stray : ¬ Attains session.forest.arena index) :
    (session.run requests).2.forest.arena.slot index = session.forest.arena.slot index := by
  obtain ⟨tree, laid⟩ := reflects.sound.laid
  obtain ⟨grown, shift⟩ := exists_shift_run reflects laid requests
  apply shift.strays index
  refine tally_eq_zero (readable.parked index) inside fun held => stray (held.attains laid ?_)
  exact fun table member => (whole table).mp (List.mem_toFinset.mp member)

/-- What stray entries name stays a node, unless it was in a run to which the root led. -/
theorem isEntry_run_of_not_enclosed (readable : session.forest.Readable)
    (reflects : Reflects True session atlas)
    (whole : ∀ table, table ∈ session.handles ↔ session.forest.Reaches table)
    (requests : List Request) (names : StrayNames session.forest.arena table)
    (outside : ¬ Enclosed session.forest.arena table) :
    ((session.run requests).2.forest.arena.slot table).isEntry = false := by
  obtain ⟨index, key, value, stray, here⟩ := names
  obtain ⟨below, isNode⟩ := (entry_of_checkSlots readable.checked here).2 table rfl
  by_cases attained : Attains session.forest.arena table
  · obtain ⟨tree, laid⟩ := reflects.sound.laid
    obtain ⟨above, member, rfl | claimed⟩ := reflects.sound.held_of_attains laid attained
    · obtain ⟨last, reflectsLast⟩ := reflects.run requests
      obtain ⟨grown, laidLast⟩ := reflectsLast.sound.laid
      obtain ⟨_, _, kept⟩ := tidy_run reflects
        (readable.tidy reflects.sound fun table => ((exists_named readable).choose_spec table).mp)
        requests
      exact (laidLast.isEntry_slot
        (List.mem_toFinset.mpr (kept (List.mem_toFinset.mp member)))).2
    · have led := ((whole above).mp (List.mem_toFinset.mp member)).attains
      exact absurd (enclosed_of_claims led (laid.held above member) claimed) outside
  · rw [slot_run_of_stray readable reflects whole requests below attained]
    exact isNode

/-- If what was used is accepted again, there is no entry where a stray entry names a table. -/
theorem isEntry_of_reread (readable : session.forest.Readable)
    (reflects : Reflects True session atlas)
    (whole : ∀ table, table ∈ session.handles ↔ session.forest.Reaches table)
    (requests : List Request)
    (checked : checkSlots (session.run requests).2.forest.arena.slots = .ok ())
    (names : StrayNames session.forest.arena table) :
    ((session.run requests).2.forest.arena.slot table).isEntry = false := by
  obtain ⟨index, key, value, stray, here⟩ := names
  have same := slot_run_of_stray readable reflects whole requests (Arena.lt_size_of_entry here) stray
  exact ((entry_of_checkSlots checked (same.trans here)).2 table rfl).2

end Rereading

/-- A forest that was read from any accepted bytes, where also the runs of nodes without children begin
in the arena, can be used in any way, and no slot outside of the arena is used.  Once it is written it
is accepted again just if there is no entry in any slot that an entry to which the root did not lead
names as its nested table, and what is read then has the slots that were written.  That there is no
such entry is certain where these slots were not in the runs to which the root led.  All that holds
for whatever number of entries is written at the head, since that number is not looked at. -/
theorem rewritten_of_read {cursor next : Cursor} {forest : Forest}
    (accepted : read cursor = .ok (forest, next)) (anchored : forest.arena.Anchored) :
    ∃ handles : List Table, handles.head? = some root ∧ handles.Nodup ∧
      (∀ table, table ∈ handles ↔ forest.Reaches table) ∧
      ∀ requests, Checked.run ⟨forest, handles⟩ requests = some (run ⟨forest, handles⟩ requests) ∧
        ∀ (count : Nat) (before after : List UInt8),
          let last : Forest := { (run ⟨forest, handles⟩ requests).2.forest with count := count }
          ((∃ answer, read (last.amid before after) = .ok answer) ↔
            ∀ table, StrayNames forest.arena table → (last.arena.slot table).isEntry = false) ∧
          (∀ again rest, read (last.amid before after) = .ok (again, rest) →
            again.arena = .ofSlots last.arena.slots) ∧
          ((∀ table, StrayNames forest.arena table → ¬ Enclosed forest.arena table) →
            ∃ answer, read (last.amid before after) = .ok answer) := by
  have readable := yields_readable cursor next forest accepted
  obtain ⟨handles, top, distinct, whole, reflects⟩ := exists_reflects_of_read accepted
  refine ⟨handles, top, distinct, whole, fun requests =>
    ⟨reflects.checked_run anchored requests, fun count before after => ?_⟩⟩
  intro last
  obtain ⟨_, reflectsLast⟩ := reflects.run requests
  obtain ⟨_, laidLast⟩ := reflectsLast.sound.laid
  have sane : last.arena.Sane := laidLast.sane
  have shows := shows_amid last before after
  have opens : (∀ table, StrayNames forest.arena table →
      (last.arena.slot table).isEntry = false) →
        ∃ answer, read (last.amid before after) = .ok answer :=
    fun nodes => ⟨_, reread readable reflects requests count nodes _ after shows⟩
  have kept : ∀ {again rest}, read (last.amid before after) = .ok (again, rest) →
      again.arena = .ofSlots last.arena.slots :=
    fun found => (gives_read sane _ after shows found).1
  refine ⟨⟨?_, opens⟩, fun _ _ => kept, fun outside => opens fun table names =>
    isEntry_run_of_not_enclosed readable reflects whole requests names (outside table names)⟩
  rintro ⟨⟨again, rest⟩, found⟩ table names
  have checked := (yields_readable _ rest again found).checked
  rw [kept found] at checked
  exact isEntry_of_reread readable reflects whole requests checked names

/-- Under the root are the keys 0, 1 and 2, key 1 at the end of a longer path than the others.  A
stray entry, to which the root does not lead, names the node on that path as its nested table. -/
def haunted : Forest :=
  { arena := .ofSlots #[.node (((LabelSet.singleton 0).insert 1).insert 2) 1 0, .entry 0 5 none,
      .node (LabelSet.singleton 0) 5 0, .entry 2 7 none, .entry 9 0 (some 2), .entry 1 6 none]
    count := 3 }

theorem takes_haunted : CheckedReader.Takes read haunted.encode haunted :=
  takes_read_ofSlots (by decide) (by decide) (by decide +kernel) rfl (by decide +kernel) (by decide)

/-- The stray entry of that forest names one table. -/
theorem strayNames_haunted (table : Nat) : StrayNames haunted.arena table ↔ table = 2 := by
  constructor
  · rintro ⟨index, key, value, _, here⟩
    have inside : index < 6 := Arena.lt_size_of_entry here
    rcases (by omega : index = 0 ∨ index = 1 ∨ index = 2 ∨ index = 3 ∨ index = 4 ∨ index = 5) with
      rfl | rfl | rfl | rfl | rfl | rfl <;> cases here
    rfl
  · rintro rfl
    refine ⟨4, 9, 0, fun attained => ?_, rfl⟩
    -- Five slots can be reached from the root, and no way leads out of them.
    have among : ∀ {index}, Attains haunted.arena index → index ∈ [0, 1, 2, 3, 5] := by
      intro index attained
      induction attained with
      | top => decide
      | @child node label above member ih =>
          have closed : ∀ node ∈ [0, 1, 2, 3, 5], ∀ label : Label,
              (haunted.arena.slot node).labels.contains label = true →
                (haunted.arena.slot node).child label ∈ [0, 1, 2, 3, 5] := by decide +kernel
          exact closed node ih label member
      | @nested index value table key above here ih =>
          simp only [List.mem_cons, List.not_mem_nil, or_false] at ih
          rcases ih with rfl | rfl | rfl | rfl | rfl <;> cases here
    exact absurd (among attained) (by decide)

/-- That forest is accepted.  After key 2 is erased it is accepted again: the node is still where it
was.  After key 0 is erased it is not, since key 2 stands in its place then. -/
theorem rewritten_of_read_haunted :
    ∃ next handles, read (haunted.amid [] []) = .ok (haunted, next) ∧ haunted.arena.Anchored ∧
      handles.head? = some root ∧
      (∃ answer, read ((run ⟨haunted, handles⟩ [.erase 0 2]).2.forest.amid [] []) = .ok answer) ∧
      ¬ ∃ answer, read ((run ⟨haunted, handles⟩ [.erase 0 0]).2.forest.amid [] []) = .ok answer := by
  have accepted := takes_haunted _ [] (shows_amid haunted [] [])
  have anchored : haunted.arena.Anchored := .of_slots (by decide +kernel)
  obtain ⟨handles, top, _, _, again⟩ := rewritten_of_read accepted anchored
  have first : table ⟨haunted, handles⟩ 0 = root := table_zero top
  have erased : ∀ key, (run ⟨haunted, handles⟩ [.erase 0 key]).2.forest =
      (haunted.erase root key).2 := fun key => by rw [← first]; rfl
  have told : ∀ key, (∃ answer,
      read ((run ⟨haunted, handles⟩ [.erase 0 key]).2.forest.amid [] []) = .ok answer) ↔
        ∀ table, StrayNames haunted.arena table →
          ((haunted.erase root key).2.arena.slot table).isEntry = false := by
    intro key
    rw [← erased]
    exact ((again [.erase 0 key]).2 _ [] []).1
  refine ⟨_, handles, accepted, anchored, top, (told 2).mpr fun table names => ?_, fun found => ?_⟩
  · rw [(strayNames_haunted table).mp names]
    decide +kernel
  · exact absurd ((told 0).mp found 2 ((strayNames_haunted 2).mpr rfl)) (by decide +kernel)

/-- What was accepted, and has no run outside of the arena, may be refused after one key was erased:
the stray entry still names the slot where there was a node, and an entry stands there now. -/
theorem refused_haunted :
    (∃ next, read (haunted.amid [] []) = .ok (haunted, next)) ∧ haunted.arena.Anchored ∧
      (haunted.erase root 0).1 = true ∧
      read ((haunted.erase root 0).2.amid [] []) = .error (.format (.badNestedTable 4 2)) := by
  have told : (read ((haunted.erase root 0).2.amid [] [])).map (fun _ => ()) =
      .error (.format (.badNestedTable 4 2)) := by decide +kernel
  refine ⟨⟨_, takes_haunted _ [] (shows_amid haunted [] [])⟩, .of_slots (by decide +kernel),
    by decide +kernel, ?_⟩
  cases outcome : read ((haunted.erase root 0).2.amid [] []) with
  | ok answer =>
      rw [outcome] at told
      cases told
  | error fault =>
      rw [outcome] at told
      cases told
      rfl

end Session

end Forest

end Lexicon

/-
Module: Lexicon.Proofs.Forest.Listing
Layer: Proofs
Purpose: The entries that a table lists: those that are found in it, in the order of the labels of
  their keys.
Imports: Lexicon.Proofs.Forest.Soundness
Trusted boundary: none
Main exports: Label.Before, Forest.mem_entries, Forest.entries_ordered, Forest.entries_keys_nodup
-/
import Lexicon.Proofs.Forest.Soundness

namespace Lexicon

/-! ### The order of keys -/

namespace Label

/-- One key comes before another when its label is smaller at the first level at which their labels
differ. -/
def Before (first second : Int32) : Prop :=
  ∃ level, first.toUInt32.toNat % weight level = second.toUInt32.toNat % weight level ∧
    (ofKey first level).val < (ofKey second level).val

/-- Labels below a level are those below a lower one. -/
theorem mod_weight_of_le {first second : Int32} {low high : Nat} (ordered : low ≤ high)
    (same : first.toUInt32.toNat % weight high = second.toUInt32.toNat % weight high) :
    first.toUInt32.toNat % weight low = second.toUInt32.toNat % weight low := by
  induction ordered with
  | refl => exact same
  | step _ ih =>
      apply ih
      rw [weight_succ, Nat.mul_comm] at same
      rw [← Nat.mod_mul_right_mod _ _ 32, same, Nat.mod_mul_right_mod]

/-- Keys with the same labels up to a level have the same label there. -/
theorem ofKey_eq_of_mod {first second : Int32} {level : Nat}
    (same : first.toUInt32.toNat % weight (level + 1) = second.toUInt32.toNat % weight (level + 1)) :
    ofKey first level = ofKey second level := by
  have below := mod_weight_of_le (Nat.le_succ level) same
  rw [mod_weight_succ, mod_weight_succ, below] at same
  have product := Nat.add_left_cancel same
  exact Fin.ext (Nat.eq_of_mul_eq_mul_right (weight_pos level) product)

theorem Before.irrefl (key : Int32) : ¬ Before key key := by
  rintro ⟨level, _, less⟩
  exact absurd less (Nat.lt_irrefl _)

theorem Before.asymm {first second : Int32} (ahead : Before first second) :
    ¬ Before second first := by
  rintro ⟨other, sameOther, lessOther⟩
  obtain ⟨level, same, less⟩ := ahead
  rcases Nat.lt_trichotomy level other with below | equal | above
  · have agree := ofKey_eq_of_mod (mod_weight_of_le below sameOther)
    rw [agree] at less
    exact absurd less (Nat.lt_irrefl _)
  · subst equal
    omega
  · have agree := ofKey_eq_of_mod (mod_weight_of_le above same)
    rw [agree] at lessOther
    exact absurd lessOther (Nat.lt_irrefl _)

/-- Lists in the order of their keys that have the same members are the same. -/
theorem eq_of_ordered {α : Type} (key : α → Int32) {first second : List α}
    (ordered : first.Pairwise fun one other => Before (key one) (key other))
    (orderedOther : second.Pairwise fun one other => Before (key one) (key other))
    (same : ∀ item, item ∈ first ↔ item ∈ second) : first = second := by
  have distinct : ∀ {list : List α},
      list.Pairwise (fun one other => Before (key one) (key other)) → list.Nodup := by
    intro list ordered
    refine ordered.imp ?_
    rintro one _ ahead rfl
    exact Before.irrefl _ ahead
  have perm := (List.perm_ext_iff_of_nodup (distinct ordered) (distinct orderedOther)).mpr same
  exact perm.eq_of_pairwise (fun _ _ _ _ ahead behind => absurd behind ahead.asymm) ordered
    orderedOther

/-- A number has one lowest part and one label above it. -/
theorem eq_of_add_mul_weight {level low other : Nat} {label further : Label}
    (small : low < weight level) (smallOther : other < weight level)
    (same : low + label.val * weight level = other + further.val * weight level) :
    label = further := by
  have first := Nat.add_mul_div_right low label.val (weight_pos level)
  have second := Nat.add_mul_div_right other further.val (weight_pos level)
  rw [Nat.div_eq_of_lt small] at first
  rw [Nat.div_eq_of_lt smallOther] at second
  rw [same] at first
  apply Fin.ext
  omega

theorem add_mul_weight_lt {level path : Nat} (small : path < weight level) (label : Label) :
    path + label.val * weight level < weight (level + 1) := by
  have least : (label.val + 1) * weight level ≤ 32 * weight level :=
    Nat.mul_le_mul_right _ label.isLt
  rw [weight_succ]
  rw [Nat.succ_mul] at least
  omega

end Label

namespace Tree

/-- A key that a tree has an entry for has the path of the tree for its lowest labels. -/
theorem mod_weight_of_lookup {loose : Prop} {key : Int32} {content : Nat × Option Nat} {tree : Tree}
    {level path : Nat} (filed : tree.Filed loose level path)
    (has : tree.lookup key level = some content) :
    key.toUInt32.toNat % Label.weight level = path := by
  induction tree generalizing level path with
  | absent => cases has
  | entry resident value nested =>
      simp only [lookup] at has
      split at has
      next same => exact same ▸ filed
      next => cases has
  | node labels run children ih =>
      have below := ih _ (filed.2 (Label.ofKey key level)) has
      rw [Label.mod_weight_succ] at below
      exact Nat.add_right_cancel below

/-- A key that a child has an entry for has the labels of the child, up to its own. -/
theorem ofKey_of_lookup {loose : Prop} {key : Int32} {content : Nat × Option Nat} {tree : Tree}
    {level path : Nat} {label : Label} (small : path < Label.weight level)
    (filed : tree.Filed loose (level + 1) (path + label.val * Label.weight level))
    (has : tree.lookup key (level + 1) = some content) :
    key.toUInt32.toNat % Label.weight level = path ∧ Label.ofKey key level = label := by
  have digits := mod_weight_of_lookup filed has
  rw [Label.mod_weight_succ] at digits
  have same :=
    Label.eq_of_add_mul_weight (Nat.mod_lt _ (Label.weight_pos level)) small digits
  rw [same] at digits
  exact ⟨Nat.add_right_cancel digits, same⟩

end Tree

/-- What a listed entry says. -/
def Entry.content (entry : Entry) : Nat × Option Table := (entry.value, entry.nested)

namespace Forest

section EntriesFrom

variable {loose : Prop} {arena : Arena}

/-- The entries of a node are those of its children, one child after the other. -/
theorem entriesFrom_node {labels : LabelSet} {run spare remaining index : Nat}
    (here : arena.slot index = .node labels run spare) :
    entriesFrom arena (remaining + 1) index =
      (List.range labels.size).flatMap fun place => entriesFrom arena remaining (run + place) := by
  rw [entriesFrom, here]

/-- An entry lists itself. -/
theorem mem_entriesFrom_entry {key : Int32} {value remaining level index : Nat} {nested : Option Nat}
    (here : arena.slot index = .entry key value nested) (entry : Entry) :
    entry ∈ entriesFrom arena remaining index ↔
      ((Tree.entry key value nested).lookup entry.key level).map named = some entry.content := by
  obtain ⟨name, stored, further⟩ := entry
  rw [entriesFrom, here]
  simp only [List.mem_singleton, Entry.mk.injEq, Tree.lookup]
  by_cases same : key = name
  · rw [if_pos same]
    simp only [Option.map_some, named, Entry.content, Option.some.injEq, Prod.mk.injEq]
    constructor
    · rintro ⟨-, rfl, rfl⟩
      exact ⟨rfl, rfl⟩
    · rintro ⟨rfl, rfl⟩
      exact ⟨same.symm, rfl, rfl⟩
  · rw [if_neg same]
    constructor
    · rintro ⟨equal, -⟩
      exact absurd equal.symm same
    · rintro ⟨⟩

/-- Listed at and below a slot are the entries that its tree has. -/
theorem mem_entriesFrom {tree : Tree} {remaining level path index : Nat} (entry : Entry)
    (total : remaining + level = levels) (held : tree.Holds arena.slot index)
    (filed : tree.Filed loose level path) (present : tree.present = true)
    (small : path < Label.weight level) :
    entry ∈ entriesFrom arena remaining index ↔
      (tree.lookup entry.key level).map named = some entry.content := by
  induction tree generalizing remaining level path index with
  | absent => cases present
  | entry => exact mem_entriesFrom_entry held entry
  | node labels run children ih =>
      have ⟨⟨spare, here⟩, known, below⟩ := held
      cases remaining with
      | zero =>
          rw [held.lookup_of_deep filed (by omega), entriesFrom, here]
          simp
      | succ remaining =>
          have inside : ∀ label, labels.contains label = true →
              (entry ∈ entriesFrom arena remaining (run + labels.rank label.val) ↔
                ((children label).lookup entry.key (level + 1)).map named =
                  some entry.content) := fun label member =>
            ih label (by omega) (below label) (filed.2 label) ((known label).symm.trans member)
              (Label.add_mul_weight_lt small label)
          rw [entriesFrom_node here, List.mem_flatMap, Tree.lookup]
          constructor
          · -- The child that lists the entry is the one to which the label of its key leads.
            rintro ⟨place, among, listed⟩
            obtain ⟨label, member, rfl⟩ := LabelSet.exists_rank_eq (List.mem_range.mp among)
            have has := (inside label member).mp listed
            obtain ⟨content, found, _⟩ := Option.map_eq_some_iff.mp has
            rw [(Tree.ofKey_of_lookup small (filed.2 label) found).2]
            exact has
          · intro has
            have member : labels.contains (Label.ofKey entry.key level) = true := by
              by_contra outside
              rw [held.absent (Bool.eq_false_iff.mpr outside)] at has
              cases has
            exact ⟨_, List.mem_range.mpr (LabelSet.rank_lt_size member), (inside _ member).mpr has⟩

/-- Entries are listed in the order of their keys. -/
theorem entriesFrom_ordered {tree : Tree} {remaining level path index : Nat}
    (total : remaining + level = levels) (held : tree.Holds arena.slot index)
    (filed : tree.Filed loose level path) (present : tree.present = true)
    (small : path < Label.weight level) :
    (entriesFrom arena remaining index).Pairwise fun first second =>
      Label.Before first.key second.key := by
  induction tree generalizing remaining level path index with
  | absent => cases present
  | entry key value nested =>
      rw [entriesFrom, show arena.slot index = .entry key value nested from held]
      exact List.pairwise_singleton _ _
  | node labels run children ih =>
      obtain ⟨⟨spare, here⟩, known, below⟩ := held
      cases remaining with
      | zero =>
          rw [entriesFrom, here]
          exact List.Pairwise.nil
      | succ remaining =>
          have total : remaining + (level + 1) = levels := by omega
          -- A listed entry has the label of the child under which it is listed.
          have along : ∀ label, labels.contains label = true → ∀ entry : Entry,
              entry ∈ entriesFrom arena remaining (run + labels.rank label.val) →
                entry.key.toUInt32.toNat % Label.weight level = path ∧
                  Label.ofKey entry.key level = label := by
            intro label member entry listed
            have has := (mem_entriesFrom entry total (below label) (filed.2 label)
              ((known label).symm.trans member) (Label.add_mul_weight_lt small label)).mp listed
            obtain ⟨content, found, _⟩ := Option.map_eq_some_iff.mp has
            exact Tree.ofKey_of_lookup small (filed.2 label) found
          rw [entriesFrom_node here, List.pairwise_flatMap]
          constructor
          · intro place among
            obtain ⟨label, member, rfl⟩ := LabelSet.exists_rank_eq (List.mem_range.mp among)
            exact ih label total (below label) (filed.2 label) ((known label).symm.trans member)
              (Label.add_mul_weight_lt small label)
          · refine List.Pairwise.imp_of_mem ?_ List.pairwise_lt_range
            intro low high amongLow amongHigh less first inFirst second inSecond
            obtain ⟨label, member, rfl⟩ := LabelSet.exists_rank_eq (List.mem_range.mp amongLow)
            obtain ⟨other, sibling, rfl⟩ := LabelSet.exists_rank_eq (List.mem_range.mp amongHigh)
            obtain ⟨pathFirst, labelFirst⟩ := along label member first inFirst
            obtain ⟨pathSecond, labelSecond⟩ := along other sibling second inSecond
            refine ⟨level, pathFirst.trans pathSecond.symm, ?_⟩
            rw [labelFirst, labelSecond]
            by_contra above
            have wrong := labels.rank_mono (Nat.le_of_not_lt above)
            omega

end EntriesFrom

section Entries

variable {loose : Prop} {forest : Forest} {tables : Finset Table} {table : Table}

theorem present_of_isNode {tree : Tree} (node : tree.isNode = true) : tree.present = true := by
  cases tree with
  | absent => cases node
  | entry => cases node
  | node => rfl

/-- Listed are the keys that the table has, with what it has under them. -/
theorem mem_entries (sound : Coherent loose forest tables) (member : table ∈ tables) (entry : Entry) :
    entry ∈ forest.entries table ↔ forest.under? table entry.key = some entry.content := by
  obtain ⟨tree, laid⟩ := sound.laid
  rw [laid.under?_eq forest member]
  exact mem_entriesFrom entry rfl (laid.held table member) (laid.filed table member)
    (present_of_isNode (laid.node table member)) Nat.one_pos

theorem entries_ordered (sound : Coherent loose forest tables) (member : table ∈ tables) :
    (forest.entries table).Pairwise fun first second => Label.Before first.key second.key := by
  obtain ⟨tree, laid⟩ := sound.laid
  exact entriesFrom_ordered rfl (laid.held table member) (laid.filed table member)
    (present_of_isNode (laid.node table member)) Nat.one_pos

/-- No key is listed twice. -/
theorem entries_keys_nodup (sound : Coherent loose forest tables) (member : table ∈ tables) :
    ((forest.entries table).map (·.key)).Nodup := by
  rw [List.Nodup, List.pairwise_map]
  refine (entries_ordered sound member).imp ?_
  intro first second ahead same
  rw [same] at ahead
  exact Label.Before.irrefl _ ahead

theorem mem_entries_keys (sound : Coherent loose forest tables) (member : table ∈ tables)
    (key : Int32) :
    key ∈ (forest.entries table).map (·.key) ↔ (forest.under? table key).isSome = true := by
  rw [List.mem_map]
  constructor
  · rintro ⟨entry, among, rfl⟩
    rw [(mem_entries sound member entry).mp among]
    rfl
  · intro has
    obtain ⟨content, found⟩ := Option.isSome_iff_exists.mp has
    exact ⟨⟨key, content.1, content.2⟩, (mem_entries sound member _).mpr found, rfl⟩

/-- Tables of any two forests that have the same keys list them in the same order. -/
theorem entries_keys_eq {other : Forest} {otherTables : Finset Table} {otherTable : Table}
    (sound : Coherent loose forest tables) (member : table ∈ tables)
    (soundOther : Sound other otherTables) (memberOther : otherTable ∈ otherTables)
    (same : ∀ key, (forest.under? table key).isSome = (other.under? otherTable key).isSome) :
    (forest.entries table).map (·.key) = (other.entries otherTable).map (·.key) := by
  apply Label.eq_of_ordered id
  · exact List.pairwise_map.mpr (entries_ordered sound member)
  · exact List.pairwise_map.mpr (entries_ordered soundOther memberOther)
  · intro key
    rw [mem_entries_keys sound member, mem_entries_keys soundOther memberOther, same]

end Entries

end Forest

end Lexicon

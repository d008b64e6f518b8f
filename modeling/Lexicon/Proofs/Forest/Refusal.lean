/-
Module: Lexicon.Proofs.Forest.Refusal
Layer: Proofs
Purpose: Which values are refused for the depth of their key; where there is room, storing a value
  that is refused leaves the forest as it is, and in a table without keys it is not refused.
Imports: Lexicon.Proofs.Forest.Soundness
Trusted boundary: none
Main exports: Forest.Bare, Forest.Bare.put, Forest.sinks, Forest.put_tooDeep_iff,
  Forest.put_of_room, Forest.founded_of_room
-/
import Lexicon.Proofs.Forest.Soundness

namespace Lexicon

/-!
A forest that was read may have nodes below the last level, and no value can be stored where a key
leads to one of them.  That is found out before anything changes.  A table that was just created has
no such nodes.
-/

namespace Forest

/-- The topmost node of a table has no children. -/
def Bare (forest : Forest) (table : Table) : Prop :=
  (forest.arena.slot table.slot).labels = LabelSet.empty

namespace Bare

variable {forest : Forest} {table : Table}

theorem contains (bare : forest.Bare table) (key : Int32) : forest.contains table key = false := by
  have total : levels = 6 + 1 := rfl
  rw [Forest.contains, locate, total, locateFrom]
  simp [show (forest.arena.slot table.slot).labels = _ from bare]

/-- Where there is room for one slot, any value that fits can be stored. -/
theorem put (bare : forest.Bare table) (key : Int32) {value : Nat} (fits : value ≤ maxValue)
    (room : forest.slotCount + 1 ≤ maxSlots) : (forest.put table key value).1 = .ok () := by
  obtain ⟨arena, count⟩ := forest
  have labels : (arena.slot table.slot).labels = LabelSet.empty := bare
  have missing : (arena.slot table.slot).labels.contains (Label.ofKey key 0) = false := by
    rw [labels, LabelSet.contains_empty]
  cases insertion : arena.insertChild table.slot (Label.ofKey key 0) (.entry key value none) with
  | mk done next =>
  cases done with
  | true => rw [(Stores.inserted missing insertion).put_eq fits]
  | false =>
      have short := (insertChild_refused insertion).2
      rw [labels, LabelSet.size_empty] at short
      exact absurd room (Nat.not_le.mpr short)

end Bare

end Forest

/-- Where no node is out of place, no key leads too deep. -/
theorem Storing.ne_tooDeep {before after : Forest} {tree : Tree} {key : Int32}
    {value level path index room : Nat} {answer : Except Error Unit}
    (storing : Storing False before tree key value level path index room answer after) :
    answer ≠ .error (.format (.keyTooDeep key)) := by
  cases storing with
  | stored => exact nofun
  | full => exact nofun
  | tooDeep allowed => exact allowed.elim

namespace Forest

/-! ### Keys that lead too deep -/

/-- Whether the labels of a key lead from a node to another one at every level that is left. -/
def sinksFrom (arena : Arena) (key : Int32) : (remaining level node : Nat) → Bool
  | 0, _, _ => true
  | remaining + 1, level, node =>
      let parent := arena.slot node
      let label := Label.ofKey key level
      parent.labels.contains label && !(arena.slot (parent.child label)).isEntry &&
        sinksFrom arena key remaining (level + 1) (parent.child label)

/-- Whether the path of a key in a table ends at a node below the last level. -/
def sinks (forest : Forest) (table : Table) (key : Int32) : Bool :=
  sinksFrom forest.arena key levels 0 table.slot

/-- Below the last level a value is refused, and nothing has changed on the way there. -/
theorem stores_of_sinksFrom {arena : Arena} {key : Int32} (value count : Nat) {remaining : Nat} :
    ∀ {level node : Nat}, sinksFrom arena key remaining level node = true →
      Stores key value remaining level node ⟨arena, count⟩ (.error (.format (.keyTooDeep key)))
        ⟨arena, count⟩ := by
  induction remaining with
  | zero => exact fun _ => .bottom
  | succ remaining ih =>
      intro level node sinking
      simp only [sinksFrom, Bool.and_eq_true] at sinking
      obtain ⟨⟨member, inner⟩, further⟩ := sinking
      exact .descended ⟨member, rfl⟩ (by simpa using inner) (ih further)

section Sinking

variable {loose : Prop}

/-- A value is refused for the depth of its key only where the key leads below the last level.  An
entry that is in the way does not stay so: it is filed under its own labels, and below the node that
is made for it no node is out of place. -/
theorem Stores.sinksFrom {key : Int32} {value remaining level index : Nat} {forest after : Forest}
    {answer : Except Error Unit}
    (stores : Stores key value remaining level index forest answer after) (fits : value ≤ maxValue)
    {path run : Nat} {labels : LabelSet} {children : Label → Tree}
    (total : remaining + level = levels)
    (whole : (Tree.node labels run children).Stands loose forest.arena level path index)
    (agrees : key.toUInt32.toNat % Label.weight level = path)
    (refused : answer = .error (.format (.keyTooDeep key))) :
    sinksFrom forest.arena key remaining level index = true := by
  induction stores generalizing path run labels children with
  | bottom => rfl
  | refused | inserted | replaced | blocked => cases refused
  | clashed step here differ =>
      obtain ⟨member, rfl⟩ := whole.held.descends step
      have deeper := whole.lt_levels_of_differ agrees member (whole.held.child_eq_entry member here)
        differ
      omega
  | pushed step here differ pushing further =>
      obtain ⟨member, rfl⟩ := whole.held.descends step
      have below := whole.child member
      rw [whole.held.child_eq_entry member here] at below
      have storing : Storing False _ _ key value _ _ _ _ _ _ :=
        .collided differ ⟨below.held, below.filed, below.apart⟩ (by omega) pushing fun standing =>
          further.storing fits (by omega) standing (Label.agrees_succ agrees) (.lone _ _ _ _ _)
      exact absurd refused storing.ne_tooDeep
  | descended step inner _ ih =>
      obtain ⟨member, same⟩ := whole.held.descends step
      obtain ⟨labelsBelow, runBelow, childrenBelow, shape⟩ :=
        whole.held.child_eq_node member (same ▸ inner)
      have below := whole.child member
      rw [← same, shape] at below
      simp only [Forest.sinksFrom, step.member, step.child, inner]
      exact ih (by omega) below (Label.agrees_succ agrees) refused

variable {forest : Forest} {tables : Finset Table} {table : Table}

/-- A value that fits is refused for the depth of its key just where the path of the key ends below
the last level. -/
theorem put_tooDeep_iff (coherent : Coherent loose forest tables) (member : table ∈ tables)
    (key : Int32) {value : Nat} (fits : value ≤ maxValue) :
    (forest.put table key value).1 = .error (.format (.keyTooDeep key)) ↔
      forest.sinks table key = true := by
  constructor
  · intro refused
    obtain ⟨tree, laid⟩ := coherent.laid
    obtain ⟨labels, run, children, _, whole⟩ := laid.exists_stands member
    exact (stores_put forest table key fits).sinksFrom fits rfl whole (Nat.mod_one _) refused
  · intro sinking
    rw [(stores_of_sinksFrom value forest.count sinking).put_eq fits]

end Sinking

section Room

variable {loose : Prop} {forest : Forest} {tables : Finset Table} {table : Table}

/-- Where there is room, a value is stored, or refused for the depth of its key, and the table had
keys before. -/
theorem put_of_room (coherent : Coherent loose forest tables) (member : table ∈ tables)
    (key : Int32) {value : Nat} (fits : value ≤ maxValue)
    (room : forest.slotCount + 32 ≤ maxSlots) :
    (∃ after, forest.put table key value = (.ok (), after) ∧
        after.slotCount ≤ forest.slotCount + 32 ∧
        Amended loose forest after tables table key
          (some (value, (forest.under? table key).bind (·.2)))) ∨
      forest.put table key value = (.error (.format (.keyTooDeep key)), forest) ∧
        ¬ forest.Bare table := by
  obtain ⟨answer, after, outcome, growth, stored | full | ⟨_, rfl, rfl⟩⟩ :=
    put_ends coherent member key fits
  · obtain ⟨rfl, amended, _⟩ := stored
    exact .inl ⟨after, outcome, growth, amended⟩
  · exact absurd full.2.1 (Nat.not_lt.mpr room)
  · refine .inr ⟨outcome, fun bare => ?_⟩
    have done := bare.put key fits (Nat.le_trans (Nat.add_le_add_left (by decide) _) room)
    rw [outcome] at done
    cases done

/-- Where there is room, a key of a table gets a bare table nested below it if it has none. -/
theorem founded_of_room (coherent : Coherent loose forest tables) (member : table ∈ tables)
    {key : Int32} {value : Nat} (has : forest.under? table key = some (value, none))
    (room : forest.slotCount + 1 ≤ maxSlots) :
    ∃ fresh after, forest.createNested? table key = (some fresh, after) ∧
      Founded loose forest after tables table key value fresh := by
  have spec := createNested_spec coherent member key
  rw [has] at spec
  exact spec.resolve_left fun full => absurd full.2 (Nat.not_lt.mpr room)

end Room

end Forest

end Lexicon

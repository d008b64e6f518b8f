/-
Module: Lexicon.Proofs.Forest.Path
Layer: Proofs
Purpose: A forest as seen from its root, where keys one after the other lead down through nested
  tables, and what the operations on the table at the end of a path change of that.
Imports: Lexicon.Dictionary.Lookup, Lexicon.Proofs.Forest.Soundness
Trusted boundary: none
Main exports: Forest.Lawful, Forest.at?, Forest.Lawful.put_at, Forest.Lawful.create_at,
  Forest.Lawful.erase_at
-/
import Lexicon.Dictionary.Lookup
import Lexicon.Proofs.Forest.Soundness

namespace Lexicon

open Dictionary (descend)

namespace Forest

/-- A forest that is sound with some tables. -/
def Lawful (forest : Forest) : Prop := ∃ tables, Sound forest tables

/-- What is filed under a key at the end of a path from the root: the value, and whether a table is
nested below the key. -/
def at? (forest : Forest) (path : List Int32) (key : Int32) : Option (Nat × Bool) :=
  match descend forest root path with
  | none => none
  | some table => (forest.under? table key).map fun content => (content.1, content.2.isSome)

/-- One key at the end of one path has something new under it, and nothing else is new. -/
structure Refiled (before after : Forest) (path : List Int32) (key : Int32)
    (answer : Option (Nat × Bool)) : Prop where
  lawful : Lawful after
  filed : ∀ other name, after.at? other name =
    if other = path ∧ name = key then answer else before.at? other name

theorem descend_snoc (forest : Forest) (table : Table) (path : List Int32) (key : Int32) :
    descend forest table (path ++ [key]) =
      (descend forest table path).bind fun last => forest.nested? last key := by
  induction path generalizing table with
  | nil =>
      simp only [List.nil_append, descend, Option.bind_some]
      cases forest.nested? table key with
      | none => rfl
      | some next => rfl
  | cons first rest ih =>
      simp only [List.cons_append, descend]
      cases forest.nested? table first with
      | none => rfl
      | some next => exact ih next

/-- Where a path leads to a table, it leads on below a key to what is nested there. -/
theorem descend_below {forest : Forest} {table last : Table} {path : List Int32}
    (along : descend forest table path = some last) (key : Int32) :
    descend forest table (path ++ [key]) = forest.nested? last key := by
  rw [descend_snoc, along, Option.bind_some]

/-- A path leads on below a key if a table is nested there. -/
theorem isSome_descend_snoc (forest : Forest) (path : List Int32) (key : Int32) :
    (descend forest root (path ++ [key])).isSome =
      ((forest.at? path key).map (·.2)).getD false := by
  rw [descend_snoc, at?]
  cases descend forest root path with
  | none => rfl
  | some table =>
      dsimp only
      rw [Option.bind_some, nested?_eq]
      cases forest.under? table key with
      | none => rfl
      | some content => rfl

/-- Whatever is filed below a key, the key leads on. -/
theorem leads_of_at? {forest : Forest} {path : List Int32} {key name : Int32}
    (has : (forest.at? (path ++ [key]) name).isSome = true) :
    ((forest.at? path key).map (·.2)).getD false = true := by
  rw [← isSome_descend_snoc]
  rw [at?] at has
  cases reached : descend forest root (path ++ [key]) with
  | none =>
      rw [reached] at has
      cases has
  | some table => rfl

/-- Storing under a key that is there takes no slots. -/
theorem slotCount_put_of_contains {forest : Forest} {table : Table} {key : Int32} (value : Nat)
    (there : forest.contains table key = true) :
    (forest.put table key value).2.slotCount = forest.slotCount := by
  rcases Nat.lt_or_ge maxValue value with wide | fits
  · rw [put_of_gt wide]
  · obtain ⟨place, located⟩ := Option.isSome_iff_exists.mp there
    obtain ⟨_, _, _, stores⟩ := (finds_of_locateFrom levels located).stores value forest.count
    rw [stores.put_eq fits]
    simp [slotCount]

namespace Sound

variable {forest : Forest} {tables : Finset Table}

theorem descend_mem (sound : Sound forest tables) {path : List Int32} {table : Table}
    (along : descend forest root path = some table) : table ∈ tables := by
  induction path using List.reverseRecOn generalizing table with
  | nil =>
      cases along
      exact sound.rooted
  | append_singleton path key ih =>
      rw [descend_snoc] at along
      obtain ⟨last, above, nested⟩ := Option.bind_eq_some_iff.mp along
      exact sound.nested_mem (ih above) nested

/-- The table at the end of a path is nested below the last key of it. -/
theorem exists_above (sound : Sound forest tables) {path : List Int32} {key : Int32} {table : Table}
    (along : descend forest root (path ++ [key]) = some table) :
    ∃ last value, descend forest root path = some last ∧ last ∈ tables ∧
      forest.under? last key = some (value, some table) := by
  rw [descend_snoc] at along
  obtain ⟨last, above, nested⟩ := Option.bind_eq_some_iff.mp along
  rw [nested?_eq] at nested
  obtain ⟨⟨value, below⟩, has, inside⟩ := Option.bind_eq_some_iff.mp nested
  cases inside
  exact ⟨last, value, above, sound.descend_mem above, has⟩

/-- No path with a key leads back to the root. -/
theorem descend_ne_root (sound : Sound forest tables) (path : List Int32) (key : Int32) :
    descend forest root (path ++ [key]) ≠ some root := by
  intro along
  obtain ⟨last, value, _, member, has⟩ := sound.exists_above along
  exact (sound.linked member has).2 rfl

/-- No two paths lead to the same table. -/
theorem descend_inj (sound : Sound forest tables) {first second : List Int32} {table : Table}
    (along : descend forest root first = some table)
    (further : descend forest root second = some table) : first = second := by
  induction first using List.reverseRecOn generalizing second table with
  | nil =>
      cases along
      induction second using List.reverseRecOn with
      | nil => rfl
      | append_singleton path key _ => exact absurd further (sound.descend_ne_root path key)
  | append_singleton path key ih =>
      induction second using List.reverseRecOn with
      | nil =>
          cases further
          exact absurd along (sound.descend_ne_root path key)
      | append_singleton other name _ =>
          obtain ⟨last, value, above, member, has⟩ := sound.exists_above along
          obtain ⟨parent, stored, below, among, holds⟩ := sound.exists_above further
          have same := sound.owned member among has holds
          rw [ih above (same.1 ▸ below), same.2]

/-- When the nested tables stay, all paths stay. -/
theorem descend_congr {after : Forest} (sound : Sound forest tables)
    (kept : ∀ table ∈ tables, ∀ key, after.nested? table key = forest.nested? table key)
    (path : List Int32) : descend after root path = descend forest root path := by
  induction path using List.reverseRecOn with
  | nil => rfl
  | append_singleton path key ih =>
      rw [descend_snoc, descend_snoc, ih]
      cases along : descend forest root path with
      | none => rfl
      | some table => exact kept table (sound.descend_mem along) key

theorem at?_of_descend {path : List Int32} {table : Table}
    (along : descend forest root path = some table) (key : Int32) :
    forest.at? path key =
      (forest.under? table key).map fun content => (content.1, content.2.isSome) := by
  rw [at?, along]

/-- A table is reached by one path only. -/
theorem reached_iff (sound : Sound forest tables) {path other : List Int32} {table last : Table}
    (along : descend forest root path = some table)
    (reached : descend forest root other = some last) : last = table ↔ other = path := by
  constructor
  · rintro rfl
    exact sound.descend_inj reached along
  · rintro rfl
    exact Option.some.inj (reached.symm.trans along)

/-- A change at one key of a table is met at the end of the path to it, and by no other path. -/
theorem under?_edited (sound : Sound forest tables) {after : Forest} {path other : List Int32}
    {table last : Table} {key : Int32} {answer : Option (Nat × Option Table)}
    (along : descend forest root path = some table)
    (entry : ∀ last ∈ tables, ∀ name, after.under? last name =
      if last = table ∧ name = key then answer else forest.under? last name)
    (reached : descend forest root other = some last) (name : Int32) :
    after.under? last name =
      if other = path ∧ name = key then answer else forest.under? last name := by
  rw [entry last (sound.descend_mem reached)]
  simp only [sound.reached_iff along reached]

/-- What a change at one key shows is seen at the end of the path to it, where the path to another
key was there before. -/
theorem at?_edited (sound : Sound forest tables) {after : Forest} {path other : List Int32}
    {table : Table} {key name : Int32} {answer : Option (Nat × Option Table)}
    (along : descend forest root path = some table)
    (entry : ∀ last ∈ tables, ∀ name, after.under? last name =
      if last = table ∧ name = key then answer else forest.under? last name)
    (kept : descend after root other = descend forest root other) :
    after.at? other name =
      if other = path ∧ name = key then answer.map fun content => (content.1, content.2.isSome)
      else forest.at? other name := by
  rw [at?, kept, at?]
  cases reached : descend forest root other with
  | none =>
      rw [if_neg]
      rintro ⟨rfl, _⟩
      rw [along] at reached
      cases reached
  | some last =>
      dsimp only
      rw [sound.under?_edited along entry reached, apply_ite (Option.map _)]

/-- A change at one key that keeps its nested table, or finds none there, is seen at the end of the
path to it. -/
theorem refiled {after : Forest} {path : List Int32} {table : Table} {key : Int32}
    {answer : Option (Nat × Option Table)} (sound : Sound forest tables)
    (along : descend forest root path = some table)
    (edited : Edited forest after tables table key answer)
    (kept : answer.bind (·.2) = forest.nested? table key) :
    Refiled forest after path key
      (answer.map fun content => (content.1, content.2.isSome)) ∧
        ∀ other, descend after root other = descend forest root other := by
  have member := sound.descend_mem along
  have paths : ∀ other, descend after root other = descend forest root other := by
    apply sound.descend_congr
    intro other among name
    rw [nested?_eq, edited.entry other among]
    by_cases here : other = table ∧ name = key
    · rw [if_pos here, here.1, here.2, kept]
    · rw [if_neg here, nested?_eq]
  exact ⟨⟨⟨tables, edited.sound⟩,
    fun other name => sound.at?_edited along edited.entry (paths other)⟩, paths⟩

section Nesting

variable {after : Forest} {path : List Int32} {table fresh : Table} {key : Int32} {value : Nat}

/-- A new table is reached by the path to the key that it is nested below, and by no other path. -/
theorem descend_nested (sound : Sound forest tables) (along : descend forest root path = some table)
    (bare : forest.nested? table key = none)
    (nested : Nested forest after tables table key value fresh) (other : List Int32) :
    descend after root other =
      if other = path ++ [key] then some fresh else descend forest root other := by
  induction other using List.reverseRecOn with
  | nil =>
      rw [if_neg (by simp)]
      rfl
  | append_singleton other name ih =>
      rw [descend_snoc, ih]
      simp only [List.append_singleton_inj]
      by_cases below : other = path ++ [key]
      · -- nothing is nested in the new table, and nothing was below the key before
        have longer : other ≠ path := by simp [below]
        rw [if_pos below, if_neg (fun both => longer both.1), Option.bind_some, nested?_eq,
          nested.empty, descend_snoc, below, descend_below along, bare]
        rfl
      · rw [if_neg below, descend_snoc]
        cases reached : descend forest root other with
        | none =>
            rw [if_neg]
            · rfl
            · rintro ⟨rfl, _⟩
              rw [along] at reached
              cases reached
        | some last =>
            rw [Option.bind_some, Option.bind_some, nested?_eq,
              sound.under?_edited along nested.entry reached, nested?_eq]
            split
            next => rfl
            next => rfl

/-- A new table shows at the end of the path to the key that it is nested below, and nowhere else. -/
theorem refiled_nested (sound : Sound forest tables) (along : descend forest root path = some table)
    (bare : forest.nested? table key = none)
    (nested : Nested forest after tables table key value fresh) :
    Refiled forest after path key (some (value, true)) := by
  have paths := sound.descend_nested along bare nested
  refine ⟨⟨_, nested.sound⟩, ?_⟩
  intro other name
  by_cases below : other = path ++ [key]
  · have longer : other ≠ path := by simp [below]
    rw [at?, paths, if_pos below, if_neg (fun both => longer both.1)]
    dsimp only
    rw [nested.empty, at?, below, descend_below along, bare]
    rfl
  · exact sound.at?_edited along nested.entry (by rw [paths, if_neg below])

end Nesting

end Sound

namespace Lawful

variable {forest : Forest} {path : List Int32} {table : Table}

theorem get?_at (along : descend forest root path = some table) (key : Int32) :
    forest.get? table key = (forest.at? path key).map (·.1) := by
  rw [get?_eq, Sound.at?_of_descend along]
  cases forest.under? table key with
  | none => rfl
  | some content => rfl

theorem contains_at (along : descend forest root path = some table) (key : Int32) :
    forest.contains table key = (forest.at? path key).isSome := by
  rw [contains_eq, Sound.at?_of_descend along, Option.isSome_map]

/-- Storing a value at the end of a path, where there is room for it.  A key that is there takes no
slots. -/
theorem put_at (lawful : Lawful forest) (along : descend forest root path = some table)
    (key : Int32) {value : Nat} (fits : value ≤ maxValue)
    (room : forest.slotCount + 32 ≤ maxSlots) :
    ∃ after, forest.put table key value = (.ok (), after) ∧
      after.slotCount ≤ forest.slotCount + (if (forest.at? path key).isSome then 0 else 32) ∧
      Refiled forest after path key (some (value, ((forest.at? path key).map (·.2)).getD false)) ∧
      ∀ other, descend after root other = descend forest root other := by
  have contained := contains_at along key
  obtain ⟨tables, sound⟩ := lawful
  obtain ⟨answer, after, outcome, growth, stored | full⟩ :=
    put_spec sound (sound.descend_mem along) key fits
  · obtain ⟨rfl, edited, _⟩ := stored
    obtain ⟨refiled, paths⟩ := sound.refiled along edited (by rw [nested?_eq]; rfl)
    refine ⟨after, outcome, ?_, ?_, paths⟩
    · cases there : (forest.at? path key).isSome with
      | false => exact growth
      | true =>
          have same := slotCount_put_of_contains value (contained.trans there)
          rw [outcome] at same
          exact same.le
    · have same : ((forest.under? table key).bind (·.2)).isSome =
          ((forest.at? path key).map (·.2)).getD false := by
        rw [Sound.at?_of_descend along]
        cases forest.under? table key with
        | none => rfl
        | some content => rfl
      rw [← same]
      exact refiled
  · exact absurd full.2.1 (by omega)

/-- Erasing a key with no nested table at the end of a path. -/
theorem erase_at (lawful : Lawful forest) (along : descend forest root path = some table)
    (key : Int32) (bare : forest.nested? table key = none) :
    ∃ after, forest.erase table key = ((forest.at? path key).isSome, after) ∧
      after.slotCount = forest.slotCount ∧ Refiled forest after path key none ∧
      ∀ other, descend after root other = descend forest root other := by
  obtain ⟨tables, sound⟩ := lawful
  obtain ⟨after, outcome, edited, kept, _⟩ := erase_spec sound (sound.descend_mem along) key
  obtain ⟨refiled, paths⟩ := sound.refiled along edited (by rw [bare]; rfl)
  refine ⟨after, ?_, kept, refiled, paths⟩
  rw [outcome, Sound.at?_of_descend along, Option.isSome_map]

/-- Creating a table below a key at the end of a path, where there is room for it. -/
theorem create_at (lawful : Lawful forest) (along : descend forest root path = some table)
    {key : Int32} {value : Nat} {known : Bool} (has : forest.at? path key = some (value, known))
    (room : forest.slotCount + 1 ≤ maxSlots) :
    ∃ nested after, forest.createNested? table key = (some nested, after) ∧
      after.slotCount ≤ forest.slotCount + (if known then 0 else 1) ∧
      Refiled forest after path key (some (value, true)) ∧
      descend after root (path ++ [key]) = some nested ∧
      ∀ other, other ≠ path ++ [key] →
        descend after root other = descend forest root other := by
  obtain ⟨tables, sound⟩ := lawful
  have member := sound.descend_mem along
  have spec := createNested_spec sound member key
  rw [Sound.at?_of_descend along] at has
  cases content : forest.under? table key with
  | none =>
      rw [content] at has
      cases has
  | some pair =>
      obtain ⟨stored, nested⟩ := pair
      rw [content] at has spec
      cases nested with
      | some nested =>
          cases has
          refine ⟨nested, forest, spec, Nat.le_add_right _ _, ⟨⟨tables, sound⟩, ?_⟩, ?_,
            fun _ _ => rfl⟩
          · intro other name
            by_cases here : other = path ∧ name = key
            · rw [if_pos here, here.1, here.2, Sound.at?_of_descend along, content]
              rfl
            · rw [if_neg here]
          · rw [descend_below along, nested?_eq, content]
            rfl
      | none =>
          cases has
          rcases spec with ⟨_, short⟩ | ⟨fresh, after, created, nested⟩
          · omega
          · have bare : forest.nested? table key = none := by
              rw [nested?_eq, content]
              rfl
            have paths := sound.descend_nested along bare nested
            refine ⟨fresh, after, created, nested.growth, sound.refiled_nested along bare nested, ?_,
              ?_⟩
            · rw [paths, if_pos rfl]
            · intro other differ
              rw [paths, if_neg differ]

end Lawful

end Forest

end Lexicon

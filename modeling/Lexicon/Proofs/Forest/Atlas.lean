/-
Module: Lexicon.Proofs.Forest.Atlas
Layer: Proofs
Purpose: A forest answers every sequence of requests as independent finite maps do, for as long as
  its slots are not exhausted.
Imports: Lexicon.Proofs.Forest.Expansion, Lexicon.Proofs.Forest.Soundness, Mathlib.Data.List.GetD
Trusted boundary: none
Main exports: Forest.Request, Forest.Session, Atlas, Forest.Session.Reflects,
  Forest.Session.Reflects.step, Forest.Session.Mirrors, Forest.Session.replies_eq_atlas
-/
import Lexicon.Proofs.Forest.Expansion
import Lexicon.Proofs.Forest.Soundness
import Mathlib.Data.List.GetD

namespace Lexicon

namespace Forest

/-- A request to a forest.  It names a table by its number among those that were handed out before;
any other number stands for the root. -/
inductive Request where
  | put (table : Nat) (key : Int32) (value : Nat)
  | get (table : Nat) (key : Int32)
  | contains (table : Nat) (key : Int32)
  | erase (table : Nat) (key : Int32)
  | nested (table : Nat) (key : Int32)
  | createNested (table : Nat) (key : Int32)

/-- The answer to a request.  A table that is handed out is named by its number: the number of
different tables that were handed out before it first was. -/
inductive Reply where
  | stored (outcome : Except Error Unit)
  | value (found : Option Nat)
  | holds (answer : Bool)
  | table (number : Option Nat)

end Forest

/-! ### Independent maps -/

/-- The content of one table: the values of its keys, and the numbers of the tables nested below
them. -/
abbrev Chart := Std.ExtHashMap Int32 (Nat × Option Nat)

/-- The content of all tables that were ever created, in the order of their creation.  No table
knows of another one, but for its number. -/
structure Atlas where
  charts : List Chart

namespace Chart

theorem size_insert (chart : Chart) (key : Int32) (content : Nat × Option Nat) :
    (chart.insert key content).size = chart.size + if chart[key]?.isSome then 0 else 1 := by
  simp only [Std.ExtHashMap.size_insert, Std.ExtHashMap.isSome_getElem?_iff_mem]
  split <;> rfl

theorem getElem?_insert (chart : Chart) (key : Int32) (content : Nat × Option Nat) (name : Int32) :
    (chart.insert key content)[name]? = if name = key then some content else chart[name]? := by
  rw [Std.ExtHashMap.getElem?_insert]
  simp only [beq_iff_eq, @eq_comm _ name key]

theorem getElem?_erase (chart : Chart) (key name : Int32) :
    (chart.erase key)[name]? = if name = key then none else chart[name]? := by
  rw [Std.ExtHashMap.getElem?_erase]
  simp only [beq_iff_eq, @eq_comm _ name key]

theorem size_erase (chart : Chart) (key : Int32) :
    (chart.erase key).size + (if chart[key]?.isSome then 1 else 0) = chart.size := by
  simp only [Std.ExtHashMap.size_erase, Std.ExtHashMap.isSome_getElem?_iff_mem]
  split
  next present =>
    have nonempty : chart.size ≠ 0 := by
      intro empty
      rw [Std.ExtHashMap.eq_empty_iff_size_eq_zero.mpr empty] at present
      exact absurd present Std.ExtHashMap.not_mem_empty
    omega
  next => rfl

end Chart

namespace Atlas

/-- One empty table. -/
def start : Atlas := ⟨[∅]⟩

/-- The number of the table that a request means. -/
def resolve (count number : Nat) : Nat := if number < count then number else 0

/-- The content of a table. -/
def chart (atlas : Atlas) (number : Nat) : Chart :=
  atlas.charts.getD (resolve atlas.charts.length number) ∅

/-- Replaces the content of a table. -/
def replace (atlas : Atlas) (number : Nat) (chart : Chart) : Atlas :=
  ⟨atlas.charts.set (resolve atlas.charts.length number) chart⟩

/-- How many entries all tables have together. -/
def total (atlas : Atlas) : Nat := (atlas.charts.map (·.size)).sum

/-- Answers a request. -/
def step (atlas : Atlas) : Forest.Request → Forest.Reply × Atlas
  | .put table key value =>
      if value > Forest.maxValue then
        (.stored (.error (.valueOutOfRange value Forest.valueBits)), atlas)
      else
        let nested := ((atlas.chart table)[key]?).bind (·.2)
        (.stored (.ok ()), atlas.replace table ((atlas.chart table).insert key (value, nested)))
  | .get table key => (.value (((atlas.chart table)[key]?).map (·.1)), atlas)
  | .contains table key => (.holds (atlas.chart table)[key]?.isSome, atlas)
  | .erase table key =>
      (.holds (atlas.chart table)[key]?.isSome, atlas.replace table ((atlas.chart table).erase key))
  | .nested table key => (.table (((atlas.chart table)[key]?).bind (·.2)), atlas)
  | .createNested table key =>
      match (atlas.chart table)[key]? with
      | none => (.table none, atlas)
      | some (_, some nested) => (.table (some nested), atlas)
      | some (value, none) =>
          let fresh := atlas.charts.length
          let atlas := atlas.replace table ((atlas.chart table).insert key (value, some fresh))
          (.table (some fresh), ⟨atlas.charts ++ [∅]⟩)

/-- Answers requests one after the other. -/
def run (atlas : Atlas) : List Forest.Request → List Forest.Reply × Atlas
  | [] => ([], atlas)
  | request :: requests =>
      let (reply, atlas) := atlas.step request
      let (replies, atlas) := run atlas requests
      (reply :: replies, atlas)

end Atlas

/-! ### Forests in use -/

namespace Forest

/-- A forest, and the tables that were handed out, each of them once and the root first. -/
structure Session where
  forest : Forest
  handles : List Table

namespace Session

/-- A new forest, of which the root is known. -/
def start : Session := ⟨Forest.new, [root]⟩

/-- The table that a request means. -/
def table (session : Session) (number : Nat) : Table :=
  session.handles.getD (Atlas.resolve session.handles.length number) root

/-- Hands a table out. -/
def hand (forest : Forest) (handles : List Table) : Option Table → Reply × Session
  | none => (.table none, ⟨forest, handles⟩)
  | some table =>
      (.table (some (handles.idxOf table)),
        ⟨forest, if table ∈ handles then handles else handles ++ [table]⟩)

/-- Answers a request. -/
def step (session : Session) : Request → Reply × Session
  | .put table key value =>
      let (outcome, forest) := session.forest.put (session.table table) key value
      (.stored outcome, ⟨forest, session.handles⟩)
  | .get table key => (.value (session.forest.get? (session.table table) key), session)
  | .contains table key => (.holds (session.forest.contains (session.table table) key), session)
  | .erase table key =>
      let (erased, forest) := session.forest.erase (session.table table) key
      (.holds erased, ⟨forest, session.handles⟩)
  | .nested table key =>
      hand session.forest session.handles (session.forest.nested? (session.table table) key)
  | .createNested table key =>
      let (nested, forest) := session.forest.createNested? (session.table table) key
      hand forest session.handles nested

/-- Answers requests one after the other. -/
def run (session : Session) : List Request → List Reply × Session
  | [] => ([], session)
  | request :: requests =>
      let (reply, session) := session.step request
      let (replies, session) := run session requests
      (reply :: replies, session)

/-- A request for which there were not enough slots: a value was refused for that reason, or a key
got no table although it is there. -/
def Short (session : Session) : Request → Prop
  | .put table key value =>
      (session.forest.put (session.table table) key value).1 = .error .forestFull
  | .createNested table key =>
      session.forest.contains (session.table table) key = true ∧
        (session.forest.createNested? (session.table table) key).1 = none
  | _ => False

/-- There are slots enough for all of some requests. -/
def Roomy (session : Session) : List Request → Prop
  | [] => True
  | request :: requests => ¬ session.Short request ∧ Roomy (session.step request).2 requests

/-! ### Both side by side -/

/-- What an atlas has under a key, with the tables of a session. -/
def translate (handles : List Table) (content : Nat × Option Nat) : Nat × Option Table :=
  (content.1, content.2.map fun number => handles.getD number root)

/-- The tables of a session are those of an atlas, in the same order and with the same content.  Where
`loose` allows it, there may be nodes below the last level. -/
structure Reflects (loose : Prop) (session : Session) (atlas : Atlas) : Prop where
  sound : Coherent loose session.forest session.handles.toFinset
  top : session.handles.head? = some root
  distinct : session.handles.Nodup
  length : session.handles.length = atlas.charts.length
  known : ∀ {number : Nat}, number < atlas.charts.length → ∀ {key : Int32} {value nested : Nat},
    (atlas.charts.getD number ∅)[key]? = some (value, some nested) → nested < atlas.charts.length
  entry : ∀ {number : Nat}, number < atlas.charts.length → ∀ key,
    session.forest.under? (session.handles.getD number root) key =
      ((atlas.charts.getD number ∅)[key]?).map (translate session.handles)

/-- There are no such nodes, and as many entries are counted as the atlas has. -/
structure Mirrors (session : Session) (atlas : Atlas) : Prop
    extends Reflects False session atlas where
  count : session.forest.count = atlas.total

/-! ### Tables by their numbers -/

theorem mem_getD {handles : List Table} {number : Nat} (inside : number < handles.length) :
    handles.getD number root ∈ handles := by
  rw [List.getD_eq_getElem _ _ inside]
  exact List.getElem_mem inside

theorem mem_toFinset_getD {handles : List Table} {number : Nat} (inside : number < handles.length) :
    handles.getD number root ∈ handles.toFinset :=
  List.mem_toFinset.mpr (mem_getD inside)

theorem getD_inj_of_nodup {handles : List Table} (distinct : handles.Nodup) {first second : Nat}
    (inFirst : first < handles.length) (inSecond : second < handles.length)
    (same : handles.getD first root = handles.getD second root) : first = second := by
  rw [List.getD_eq_getElem _ _ inFirst, List.getD_eq_getElem _ _ inSecond] at same
  exact (distinct.getElem_inj_iff).mp same

/-- A table that was handed out before keeps its number when another one is handed out. -/
@[simp] theorem getD_append_length {α : Type} (items : List α) (last fallback : α) :
    (items ++ [last]).getD items.length fallback = last := by
  simp [List.getD_eq_getElem?_getD]

theorem toFinset_append (handles : List Table) (fresh : Table) :
    (handles ++ [fresh]).toFinset = insert fresh handles.toFinset := by
  ext other
  simp

theorem nodup_append {handles : List Table} {fresh : Table} (distinct : handles.Nodup)
    (unknown : fresh ∉ handles.toFinset) : (handles ++ [fresh]).Nodup := by
  rw [← List.concat_eq_append]
  exact distinct.concat fun among => unknown (List.mem_toFinset.mpr among)

theorem forest_hand (forest : Forest) (handles : List Table) (nested : Option Table) :
    (hand forest handles nested).2.forest = forest := by
  cases nested with
  | none => rfl
  | some nested => rfl

/-- The tables of a hand are those before and the one that was handed out. -/
theorem mem_handles_hand {forest : Forest} {handles : List Table} {nested : Option Table}
    {table : Table} :
    table ∈ (hand forest handles nested).2.handles ↔ table ∈ handles ∨ nested = some table := by
  cases nested with
  | none => simp [hand]
  | some nested =>
      rw [hand]
      dsimp only
      split
      next among =>
        refine ⟨.inl, fun known => known.elim id ?_⟩
        rintro ⟨⟩
        exact among
      next => simp [eq_comm]

theorem toFinset_hand (forest : Forest) (handles : List Table) (nested : Option Table) :
    (hand forest handles nested).2.handles.toFinset =
      match nested with
      | none => handles.toFinset
      | some fresh => insert fresh handles.toFinset := by
  ext table
  rw [List.mem_toFinset, mem_handles_hand]
  cases nested with
  | none => simp
  | some fresh => simp [eq_comm, or_comm]

/-- A table that is created is handed out. -/
theorem step_createNested_eq (session : Session) (table : Nat) (key : Int32) :
    session.step (.createNested table key) =
      hand (session.forest.createNested? (session.table table) key).2 session.handles
        (session.forest.createNested? (session.table table) key).1 := rfl

/-- A table that is meant by a request is one of those that were handed out. -/
theorem table_mem {session : Session} (rooted : root ∈ session.handles.toFinset) (number : Nat) :
    session.table number ∈ session.handles.toFinset := by
  have pos : 0 < session.handles.length := List.length_pos_of_mem (List.mem_toFinset.mp rooted)
  apply mem_toFinset_getD
  unfold Atlas.resolve
  split <;> omega

/-- The root, if it was handed out first, is the table with number 0. -/
theorem table_zero {session : Session} (top : session.handles.head? = some root) :
    session.table 0 = root := by
  obtain ⟨forest, handles⟩ := session
  cases handles with
  | nil => rfl
  | cons first others => exact Option.some.inj top

namespace Reflects

variable {loose : Prop} {session : Session} {atlas : Atlas}

theorem pos (reflects : Reflects loose session atlas) : 0 < atlas.charts.length := by
  rw [← reflects.length, List.length_pos_iff]
  rintro empty
  have top := reflects.top
  rw [empty] at top
  cases top

theorem resolve_lt (reflects : Reflects loose session atlas) (number : Nat) :
    Atlas.resolve atlas.charts.length number < atlas.charts.length := by
  have pos := reflects.pos
  unfold Atlas.resolve
  split <;> omega

theorem member (reflects : Reflects loose session atlas) (number : Nat) :
    session.table number ∈ session.handles.toFinset :=
  table_mem reflects.sound.rooted number

theorem handed (reflects : Reflects loose session atlas) {number : Nat}
    (among : number < atlas.charts.length) :
    session.handles.getD number root ∈ session.handles.toFinset :=
  mem_toFinset_getD (reflects.length ▸ among)

/-- The tables with different numbers are different. -/
theorem getD_eq_table_iff (reflects : Reflects loose session atlas) {other number : Nat}
    (among : other < atlas.charts.length) :
    session.handles.getD other root = session.table number ↔
      other = Atlas.resolve atlas.charts.length number := by
  rw [table, reflects.length]
  refine ⟨fun same => ?_, fun same => same ▸ rfl⟩
  exact getD_inj_of_nodup reflects.distinct (reflects.length ▸ among)
    (reflects.length ▸ reflects.resolve_lt number) same

/-- The number of a table that was handed out is found again. -/
theorem idxOf_getD (reflects : Reflects loose session atlas) {number : Nat}
    (inside : number < atlas.charts.length) :
    session.handles.idxOf (session.handles.getD number root) = number := by
  rw [← reflects.length] at inside
  rw [List.getD_eq_getElem _ _ inside]
  exact reflects.distinct.idxOf_getElem number inside

theorem here (reflects : Reflects loose session atlas) (number : Nat) (key : Int32) :
    session.forest.under? (session.table number) key =
      ((atlas.chart number)[key]?).map (translate session.handles) := by
  rw [table, Atlas.chart, reflects.length]
  exact reflects.entry (reflects.resolve_lt number) key

/-- Handing out the table that is nested below a key changes nothing. -/
theorem hand_nested (reflects : Reflects loose session atlas) {number : Nat} {key : Int32}
    {value nested : Nat} (has : (atlas.chart number)[key]? = some (value, some nested)) :
    hand session.forest session.handles (some (session.handles.getD nested root)) =
      (.table (some nested), session) := by
  have inside := reflects.known (reflects.resolve_lt number) has
  rw [hand, if_pos (mem_getD (reflects.length ▸ inside)), reflects.idxOf_getD inside]

end Reflects

theorem sum_size_set (charts : List Chart) {place : Nat} (inside : place < charts.length)
    (chart : Chart) :
    ((charts.set place chart).map (·.size)).sum + (charts.getD place ∅).size =
      (charts.map (·.size)).sum + chart.size := by
  induction charts generalizing place with
  | nil => cases inside
  | cons first others ih =>
      cases place with
      | zero =>
          simp only [List.set_cons_zero, List.map_cons, List.sum_cons, List.getD_cons_zero]
          omega
      | succ place =>
          have rest := ih (Nat.lt_of_succ_lt_succ inside)
          simp only [List.set_cons_succ, List.map_cons, List.sum_cons, List.getD_cons_succ]
          omega

/-- Replacing a chart changes the number of entries by the difference of their sizes. -/
theorem total_replace {atlas : Atlas} {number : Nat}
    (inside : Atlas.resolve atlas.charts.length number < atlas.charts.length) (chart : Chart) :
    (atlas.replace number chart).total + (atlas.chart number).size = atlas.total + chart.size :=
  sum_size_set atlas.charts inside chart

/-- A new table has no entries. -/
theorem total_append (atlas : Atlas) : Atlas.total ⟨atlas.charts ++ [∅]⟩ = atlas.total := by
  have bare : (([∅] : List Chart).map (·.size)).sum = 0 := rfl
  rw [Atlas.total, Atlas.total, List.map_append, List.sum_append, bare, Nat.add_zero]

/-- When a chart is replaced by one with something else under one key, that is all that changes. -/
theorem getElem?_getD_set {charts : List Chart} {place : Nat} (inside : place < charts.length)
    {chart : Chart} {key : Int32} {content : Option (Nat × Option Nat)}
    (drawn : ∀ name, chart[name]? = if name = key then content else (charts.getD place ∅)[name]?)
    (other : Nat) (name : Int32) :
    ((charts.set place chart).getD other ∅)[name]? =
      if other = place ∧ name = key then content else (charts.getD other ∅)[name]? := by
  simp only [List.getD_eq_getElem?_getD, List.getElem?_set] at drawn ⊢
  by_cases same : other = place
  · subst same
    simp [inside, drawn]
  · rw [if_neg (Ne.symm same), if_neg fun both => same both.1]

section Reflecting

variable {loose : Prop} {session : Session} {atlas : Atlas} {after : Forest} {number : Nat}
  {key : Int32}

/-- When a table and its chart say the same new thing about one key, the session reflects the atlas
again. -/
theorem Reflects.edit (content : Option (Nat × Option Nat)) {chart : Chart}
    (reflects : Reflects loose session atlas)
    (edited : Amended loose session.forest after session.handles.toFinset (session.table number) key
      (content.map (translate session.handles)))
    (drawn : ∀ name, chart[name]? = if name = key then content else (atlas.chart number)[name]?)
    (known : ∀ value nested, content = some (value, some nested) → nested < atlas.charts.length) :
    Reflects loose ⟨after, session.handles⟩ (atlas.replace number chart) := by
  have inside := reflects.resolve_lt number
  refine ⟨edited.sound, reflects.top, reflects.distinct, ?_, ?_, ?_⟩
  · simpa [Atlas.replace] using reflects.length
  · intro other among name value nested has
    simp only [Atlas.replace, List.length_set] at among ⊢
    rw [Atlas.replace, getElem?_getD_set inside drawn] at has
    split at has
    next => exact known value nested has
    next => exact reflects.known among has
  · intro other among name
    simp only [Atlas.replace, List.length_set] at among
    rw [edited.entry _ (reflects.handed among), Atlas.replace, getElem?_getD_set inside drawn,
      reflects.entry among, apply_ite (Option.map _)]
    simp only [reflects.getD_eq_table_iff among]

/-- When a table has the same under a key as before, the session reflects the same atlas. -/
theorem Reflects.kept (reflects : Reflects loose session atlas)
    (amended : Amended loose session.forest after session.handles.toFinset (session.table number) key
      (session.forest.under? (session.table number) key)) :
    Reflects loose ⟨after, session.handles⟩ atlas := by
  refine ⟨amended.sound, reflects.top, reflects.distinct, reflects.length, reflects.known, ?_⟩
  intro other among name
  rw [← reflects.entry among, amended.entry _ (reflects.handed among)]
  split
  next same => rw [same.1, same.2]
  next => rfl

/-- What is said before keeps its meaning when another table is handed out. -/
theorem Reflects.translate_append (reflects : Reflects loose session atlas) (fresh : Table)
    {number : Nat} (among : number < atlas.charts.length) (key : Int32) :
    ((atlas.charts.getD number ∅)[key]?).map (translate (session.handles ++ [fresh])) =
      ((atlas.charts.getD number ∅)[key]?).map (translate session.handles) := by
  cases content : (atlas.charts.getD number ∅)[key]? with
  | none => rfl
  | some pair =>
      obtain ⟨value, nested⟩ := pair
      cases nested with
      | none => rfl
      | some nested =>
          simp only [Option.map_some, translate,
            List.getD_append _ [fresh] _ _ (reflects.length ▸ reflects.known among content)]

/-- When a key got a new table, and its chart a new number, the session reflects the atlas again. -/
theorem Reflects.create {value : Nat} {fresh : Table} (reflects : Reflects loose session atlas)
    (nested : Founded loose session.forest after session.handles.toFinset (session.table number) key
      value fresh) :
    Reflects loose ⟨after, session.handles ++ [fresh]⟩
      ⟨(atlas.replace number
        ((atlas.chart number).insert key (value, some atlas.charts.length))).charts ++ [∅]⟩ := by
  have inside := reflects.resolve_lt number
  have length := reflects.length
  have last : (session.handles ++ [fresh]).getD atlas.charts.length root = fresh :=
    length ▸ getD_append_length session.handles fresh root
  have drawn := Chart.getElem?_insert (atlas.chart number) key (value, some atlas.charts.length)
  rw [Atlas.replace]
  generalize (atlas.chart number).insert key (value, some atlas.charts.length) = chart at drawn ⊢
  generalize replaced : atlas.charts.set (Atlas.resolve atlas.charts.length number) chart = charts
  have same : charts.length = atlas.charts.length := by rw [← replaced, List.length_set]
  have told : ∀ other name, (charts.getD other ∅)[name]? =
      if other = Atlas.resolve atlas.charts.length number ∧ name = key then
        some (value, some atlas.charts.length)
      else (atlas.charts.getD other ∅)[name]? := replaced ▸ getElem?_getD_set inside drawn
  refine ⟨?_, ?_, nodup_append reflects.distinct nested.unknown, ?_, ?_, ?_⟩
  · exact toFinset_append session.handles fresh ▸ nested.sound
  · rw [List.head?_append, reflects.top]
    rfl
  · simp [length, same]
  · intro other among name stored further has
    rw [List.length_append, List.length_singleton, same] at among ⊢
    rcases Nat.lt_or_eq_of_le (Nat.le_of_lt_succ among) with old | rfl
    · rw [List.getD_append _ _ _ _ (same ▸ old), told] at has
      split at has
      next =>
        cases has
        exact Nat.lt_succ_self _
      next => exact Nat.lt_succ_of_lt (reflects.known old has)
    · rw [← same, getD_append_length] at has
      simp at has
  · intro other among name
    rw [List.length_append, List.length_singleton, same] at among
    rcases Nat.lt_or_eq_of_le (Nat.le_of_lt_succ among) with old | rfl
    · rw [List.getD_append _ _ _ _ (length ▸ old), List.getD_append _ _ _ _ (same ▸ old), told,
        nested.entry _ (reflects.handed old), reflects.entry old,
        ← reflects.translate_append fresh old, apply_ite (Option.map _)]
      simp only [reflects.getD_eq_table_iff old, Option.map_some, translate, last]
    · rw [last, ← same, getD_append_length, nested.empty]
      simp

end Reflecting

/-! ### Every step -/

/-- What comes of a request in comparison to an atlas.  It is served as by the atlas, and as many
entries are added or taken away.  Or there are not slots enough for it.  Or, where `loose` allows it,
a value is refused because the key leads below the last level; then nothing has changed at all.  If
it is not served, it goes on with the same atlas. -/
inductive Answered (loose : Prop) (session : Session) (atlas : Atlas) (request : Request) :
    Atlas → Prop
  | served (reply : (session.step request).1 = (atlas.step request).1)
      (count : (session.step request).2.forest.count =
        session.forest.count + (atlas.step request).2.total - atlas.total) :
      Answered loose session atlas request (atlas.step request).2
  | short (refused : session.Short request) (few : maxSlots < session.forest.slotCount + 32)
      (count : (session.step request).2.forest.count = session.forest.count) :
      Answered loose session atlas request atlas
  | sunken (allowed : loose) {table : Nat} {key : Int32} {value : Nat}
      (asked : request = .put table key value) (fits : value ≤ maxValue)
      (refused : session.step request = (.stored (.error (.format (.keyTooDeep key))), session)) :
      Answered loose session atlas request atlas

section Steps

variable {loose : Prop} {session : Session} {atlas : Atlas}

/-- What is asked without changing anything is served if the answer is right. -/
theorem Reflects.served {request : Request} (reflects : Reflects loose session atlas)
    (reply : (session.step request).1 = (atlas.step request).1)
    (same : (session.step request).2 = session) (sameAtlas : (atlas.step request).2 = atlas) :
    ∃ next, Answered loose session atlas request next ∧
      Reflects loose (session.step request).2 next := by
  refine ⟨_, .served reply ?_, ?_⟩
  · rw [same, sameAtlas, Nat.add_sub_cancel]
  · rwa [same, sameAtlas]

/-- Where a value was stored, the atlas stores it as well. -/
theorem Reflects.step_stored (reflects : Reflects loose session atlas) {table value : Nat}
    {key : Int32} {after : Forest} (fits : value ≤ maxValue)
    (outcome : session.forest.put (session.table table) key value = (.ok (), after))
    (edited : Amended loose session.forest after session.handles.toFinset (session.table table) key
      (some (value, (session.forest.under? (session.table table) key).bind (·.2))))
    (count : after.count = session.forest.count +
      if (session.forest.under? (session.table table) key).isSome then 0 else 1) :
    ∃ next, Answered loose session atlas (.put table key value) next ∧
      Reflects loose (session.step (.put table key value)).2 next := by
  have has := reflects.here table key
  have stepped : session.step (.put table key value) =
      (.stored (.ok ()), ⟨after, session.handles⟩) := by
    simp only [Session.step, outcome]
  have drawn : (atlas.step (.put table key value)) =
      (.stored (.ok ()), atlas.replace table ((atlas.chart table).insert key
        (value, ((atlas.chart table)[key]?).bind (·.2)))) := by
    simp only [Atlas.step, if_neg (Nat.not_lt.mpr fits)]
  -- The table that stays nested below the key is the one that the atlas has there.
  have same : (session.forest.under? (session.table table) key).bind (·.2) =
      (translate session.handles (value, ((atlas.chart table)[key]?).bind (·.2))).2 := by
    rw [has]
    cases (atlas.chart table)[key]? with
    | none => rfl
    | some content => rfl
  rw [same] at edited
  refine ⟨_, .served (by rw [stepped, drawn]) ?_, ?_⟩
  · have sizes := total_replace (reflects.resolve_lt table) ((atlas.chart table).insert key
      (value, ((atlas.chart table)[key]?).bind (·.2)))
    rw [Chart.size_insert] at sizes
    rw [stepped, drawn]
    dsimp only
    rw [count, has, Option.isSome_map]
    omega
  · rw [stepped, drawn]
    refine reflects.edit (some (value, ((atlas.chart table)[key]?).bind (·.2))) edited
      (Chart.getElem?_insert _ key _) ?_
    intro stored nested same
    cases old : (atlas.chart table)[key]? with
    | none => simp [old] at same
    | some pair =>
        obtain ⟨before, further⟩ := pair
        simp only [old, Option.bind_some, Option.some.injEq, Prod.mk.injEq] at same
        obtain ⟨_, rfl⟩ := same
        exact reflects.known (reflects.resolve_lt table) old

theorem Reflects.step_put (reflects : Reflects loose session atlas) (table : Nat) (key : Int32)
    (value : Nat) :
    ∃ next, Answered loose session atlas (.put table key value) next ∧
      Reflects loose (session.step (.put table key value)).2 next := by
  by_cases wide : value > maxValue
  · refine reflects.served ?_ ?_ ?_
    · simp only [Session.step, Atlas.step, put_of_gt wide, if_pos wide]
    · simp only [Session.step, put_of_gt wide]
    · simp only [Atlas.step, if_pos wide]
  have fits := Nat.le_of_not_lt wide
  obtain ⟨answer, after, outcome, _, stored | full | ⟨allowed, rfl, rfl⟩⟩ :=
    put_ends reflects.sound (reflects.member table) key fits
  · obtain ⟨rfl, edited, count⟩ := stored
    exact reflects.step_stored fits outcome edited count
  · obtain ⟨rfl, few, amended, count⟩ := full
    have stepped : session.step (.put table key value) =
        (.stored (.error .forestFull), ⟨after, session.handles⟩) := by
      simp only [Session.step, outcome]
    refine ⟨atlas, .short (congrArg Prod.fst outcome) few ?_, ?_⟩
    · rw [stepped]
      exact count
    · rw [stepped]
      exact reflects.kept amended
  · have stepped : session.step (.put table key value) =
        (.stored (.error (.format (.keyTooDeep key))), session) := by
      simp only [Session.step, outcome]
    refine ⟨atlas, .sunken allowed rfl fits stepped, ?_⟩
    rw [stepped]
    exact reflects

theorem Reflects.step_erase (reflects : Reflects loose session atlas) (table : Nat) (key : Int32) :
    ∃ next, Answered loose session atlas (.erase table key) next ∧
      Reflects loose (session.step (.erase table key)).2 next := by
  have has := reflects.here table key
  obtain ⟨after, outcome, edited, _, count⟩ := erase_spec reflects.sound (reflects.member table) key
  have stepped : session.step (.erase table key) =
      (.holds (atlas.chart table)[key]?.isSome, ⟨after, session.handles⟩) := by
    simp only [Session.step, outcome, has, Option.isSome_map]
  refine ⟨_, .served (congrArg Prod.fst stepped) ?_, ?_⟩
  · have sizes := Chart.size_erase (atlas.chart table) key
    have totals := total_replace (reflects.resolve_lt table) ((atlas.chart table).erase key)
    rw [stepped]
    simp only [Atlas.step]
    rw [count, has, Option.isSome_map]
    omega
  · rw [stepped]
    exact reflects.edit none edited (Chart.getElem?_erase _ key) nofun

/-- Looking for a nested table hands out nothing new. -/
theorem Reflects.step_nested_eq (reflects : Reflects loose session atlas) (table : Nat)
    (key : Int32) : session.step (.nested table key) =
      (.table (((atlas.chart table)[key]?).bind (·.2)), session) := by
  simp only [Session.step, nested?_eq, reflects.here table key]
  cases content : (atlas.chart table)[key]? with
  | none => rfl
  | some pair =>
      obtain ⟨value, nested⟩ := pair
      cases nested with
      | none => rfl
      | some nested =>
          simp only [Option.map_some, translate, Option.bind_some, reflects.hand_nested content]

theorem Reflects.step_nested (reflects : Reflects loose session atlas) (table : Nat) (key : Int32) :
    ∃ next, Answered loose session atlas (.nested table key) next ∧
      Reflects loose (session.step (.nested table key)).2 next := by
  have stepped := reflects.step_nested_eq table key
  exact reflects.served (congrArg Prod.fst stepped) (congrArg Prod.snd stepped) rfl

/-- Where a table was created, the atlas creates one as well. -/
theorem Reflects.step_founded (reflects : Reflects loose session atlas) {table value : Nat}
    {key : Int32} {fresh : Table} {after : Forest}
    (content : (atlas.chart table)[key]? = some (value, none))
    (created : session.forest.createNested? (session.table table) key = (some fresh, after))
    (founded : Founded loose session.forest after session.handles.toFinset (session.table table) key
      value fresh) :
    ∃ next, Answered loose session atlas (.createNested table key) next ∧
      Reflects loose (session.step (.createNested table key)).2 next := by
  have new : fresh ∉ session.handles := fun among =>
    founded.unknown (List.mem_toFinset.mpr among)
  have stepped : session.step (.createNested table key) =
      (.table (some atlas.charts.length), ⟨after, session.handles ++ [fresh]⟩) := by
    simp only [Session.step, created, hand, if_neg new, List.idxOf_of_notMem new, reflects.length]
  have drawn : atlas.step (.createNested table key) =
      (.table (some atlas.charts.length), ⟨(atlas.replace table
        ((atlas.chart table).insert key (value, some atlas.charts.length))).charts ++ [∅]⟩) := by
    simp only [Atlas.step, content]
  refine ⟨_, .served (by rw [stepped, drawn]) ?_, ?_⟩
  · have sizes := total_replace (reflects.resolve_lt table)
      ((atlas.chart table).insert key (value, some atlas.charts.length))
    rw [Chart.size_insert, content, Option.isSome_some, if_pos rfl] at sizes
    rw [stepped, drawn, total_append]
    dsimp only
    rw [founded.count]
    omega
  · rw [stepped, drawn]
    exact reflects.create founded

theorem Reflects.step_createNested (reflects : Reflects loose session atlas) (table : Nat)
    (key : Int32) :
    ∃ next, Answered loose session atlas (.createNested table key) next ∧
      Reflects loose (session.step (.createNested table key)).2 next := by
  have has := reflects.here table key
  have spec := createNested_spec reflects.sound (reflects.member table) key
  rw [has] at spec
  cases content : (atlas.chart table)[key]? with
  | none =>
      rw [content] at spec
      simp only [Option.map_none] at spec
      refine reflects.served ?_ ?_ ?_
      · simp only [Session.step, Atlas.step, content, spec, hand]
      · simp only [Session.step, spec, hand]
      · simp only [Atlas.step, content]
  | some pair =>
      obtain ⟨value, nested⟩ := pair
      rw [content] at spec
      cases nested with
      | some nested =>
          simp only [Option.map_some, translate] at spec
          refine reflects.served ?_ ?_ ?_
          · simp only [Session.step, Atlas.step, content, spec, reflects.hand_nested content]
          · simp only [Session.step, spec, reflects.hand_nested content]
          · simp only [Atlas.step, content]
      | none =>
          simp only [Option.map_some, translate, Option.map_none] at spec
          rcases spec with ⟨refused, few⟩ | ⟨fresh, after, created, founded⟩
          · have present : session.forest.contains (session.table table) key = true := by
              rw [contains_eq, has, content]
              rfl
            have stepped : session.step (.createNested table key) = (.table none, session) := by
              simp only [Session.step, refused, hand]
            refine ⟨atlas, .short ⟨present, congrArg Prod.fst refused⟩ (by omega) ?_, ?_⟩
            · rw [stepped]
            · rw [stepped]
              exact reflects
          · exact reflects.step_founded content created founded

/-- What comes of a request is one of three things, and the session reflects the atlas that it goes on
with. -/
theorem Reflects.step (reflects : Reflects loose session atlas) (request : Request) :
    ∃ next, Answered loose session atlas request next ∧
      Reflects loose (session.step request).2 next := by
  cases request with
  | put table key value => exact reflects.step_put table key value
  | get table key =>
      refine reflects.served ?_ rfl rfl
      simp only [Session.step, Atlas.step, get?_eq, reflects.here]
      cases (atlas.chart table)[key]? with
      | none => rfl
      | some content => rfl
  | contains table key =>
      refine reflects.served ?_ rfl rfl
      simp only [Session.step, Atlas.step, contains_eq, reflects.here, Option.isSome_map]
  | erase table key => exact reflects.step_erase table key
  | nested table key => exact reflects.step_nested table key
  | createNested table key => exact reflects.step_createNested table key

/-- One request: for which there are slots enough, it has the same answer on both sides, and they
stay side by side. -/
theorem Mirrors.step (mirrors : Mirrors session atlas) (request : Request)
    (roomy : ¬ session.Short request) :
    (session.step request).1 = (atlas.step request).1 ∧
      Mirrors (session.step request).2 (atlas.step request).2 := by
  obtain ⟨next, answered, reflects⟩ := mirrors.toReflects.step request
  cases answered with
  | served reply count =>
      refine ⟨reply, reflects, ?_⟩
      rw [count, mirrors.count, Nat.add_sub_cancel_left]
  | short refused => exact absurd refused roomy
  | sunken allowed => exact allowed.elim

end Steps

/-! ### Every run -/

theorem mirrors_start : Mirrors start Atlas.start := by
  refine ⟨⟨sound_new.1, rfl, List.nodup_singleton _, rfl, ?_, ?_⟩, rfl⟩
  · intro number inside key value nested has
    have first : number = 0 := by
      simp only [Atlas.start, List.length_singleton] at inside
      omega
    subst first
    simp [Atlas.start] at has
  · intro number inside key
    have first : number = 0 := by
      simp only [Atlas.start, List.length_singleton] at inside
      omega
    subst first
    simpa [start, Atlas.start] using sound_new.2 key

theorem Mirrors.run {session : Session} {atlas : Atlas} (mirrors : Mirrors session atlas)
    (requests : List Request) (roomy : session.Roomy requests) :
    (session.run requests).1 = (atlas.run requests).1 ∧
      Mirrors (session.run requests).2 (atlas.run requests).2 := by
  induction requests generalizing session atlas with
  | nil => exact ⟨rfl, mirrors⟩
  | cons request requests ih =>
      obtain ⟨enough, rest⟩ := roomy
      obtain ⟨same, further⟩ := mirrors.step request enough
      obtain ⟨replies, last⟩ := ih further rest
      refine ⟨?_, last⟩
      simp only [Session.run, Atlas.run, same, replies]

/-! ### Room -/

/-- A request takes at most thirty-two slots, whatever the forest holds. -/
theorem slotCount_step_le (session : Session) (request : Request) :
    (session.step request).2.forest.slotCount ≤ session.forest.slotCount + 32 := by
  cases request with
  | put table key value => exact slotCount_put_le _ _ key value
  | get => exact Nat.le_add_right _ _
  | contains => exact Nat.le_add_right _ _
  | erase table key =>
      exact (slotCount_erase _ (session.table table) key).le.trans (Nat.le_add_right _ _)
  | nested table key =>
      rw [Session.step, forest_hand]
      exact Nat.le_add_right _ _
  | createNested table key =>
      rw [step_createNested_eq, forest_hand]
      exact (slotCount_createNested _ _ key).2.trans (Nat.add_le_add_left (by decide) _)

/-- A request finds slots enough if there are thirty-two. -/
theorem Mirrors.scant_of_short {session : Session} {atlas : Atlas} (mirrors : Mirrors session atlas)
    {request : Request} (short : session.Short request) :
    maxSlots < session.forest.slotCount + 32 := by
  cases request with
  | put table key value =>
      simp only [Short] at short
      by_cases wide : maxValue < value
      · rw [put_of_gt wide] at short
        cases short
      · obtain ⟨answer, after, outcome, _, stored | full⟩ :=
          put_spec mirrors.sound (mirrors.member table) key (Nat.le_of_not_lt wide)
        · rw [outcome, stored.1] at short
          cases short
        · exact full.2.1
  | createNested table key =>
      have spec := createNested_spec mirrors.sound (mirrors.member table) key
      obtain ⟨present, refused⟩ := short
      rw [contains_eq] at present
      generalize session.forest.under? (session.table table) key = content at spec present
      match content, spec with
      | none, _ => cases present
      | some (_, some nested), spec =>
          rw [spec] at refused
          cases refused
      | some (_, none), .inl ⟨_, few⟩ => omega
      | some (_, none), .inr ⟨fresh, after, created, _⟩ =>
          rw [created] at refused
          cases refused
  | get => exact short.elim
  | contains => exact short.elim
  | erase => exact short.elim
  | nested => exact short.elim

theorem Mirrors.roomy {session : Session} {atlas : Atlas} (mirrors : Mirrors session atlas)
    (requests : List Request)
    (enough : session.forest.slotCount + 32 * requests.length ≤ maxSlots) :
    session.Roomy requests := by
  induction requests generalizing session atlas with
  | nil => trivial
  | cons request requests ih =>
      rw [List.length_cons] at enough
      have growth := session.slotCount_step_le request
      have served : ¬ session.Short request := by
        intro refused
        have scant := mirrors.scant_of_short refused
        omega
      exact ⟨served, ih (mirrors.step request served).2 (by omega)⟩

/-- Slots can only run out after more than sixty-seven million requests. -/
theorem roomy_start (requests : List Request) (few : requests.length < 67108864) :
    start.Roomy requests := by
  apply mirrors_start.roomy
  have slots : start.forest.slotCount = 1 := rfl
  have limit : maxSlots = 2147483647 := rfl
  omega

/-- For as long as there are slots enough, a forest answers all requests as independent finite maps
do: it stores every value that fits and refuses the others, a table that is handed out again has the
number it had before, a new one has a number of its own, and a table stays as it is when the key that
led to it is erased.  As many different tables are handed out as were ever created, and the forest
counts the entries of all of them. -/
theorem replies_eq_atlas (requests : List Request) (roomy : start.Roomy requests) :
    (start.run requests).1 = (Atlas.start.run requests).1 ∧
      (start.run requests).2.forest.count = (Atlas.start.run requests).2.total ∧
      (start.run requests).2.handles.Nodup ∧
      (start.run requests).2.handles.length = (Atlas.start.run requests).2.charts.length := by
  obtain ⟨replies, mirrors⟩ := mirrors_start.run requests roomy
  exact ⟨replies, mirrors.count, mirrors.distinct, mirrors.length⟩

/-- A key with a table below it is erased and stored again. -/
def orphaning : List Request :=
  [.put 0 1 5, .createNested 0 1, .put 1 7 9, .erase 0 1, .put 0 1 6, .nested 0 1, .get 1 7]

/-- A table outlives the key that led to it, and the key has no table when it comes back. -/
theorem replies_eq_atlas_orphaning :
    start.Roomy orphaning ∧ (Atlas.start.run orphaning).1 =
      [.stored (.ok ()), .table (some 1), .stored (.ok ()), .holds true, .stored (.ok ()),
        .table none, .value (some 9)] := by
  have roomy : start.Roomy orphaning := roomy_start orphaning (by decide)
  exact ⟨roomy, (replies_eq_atlas orphaning roomy).1.symm.trans rfl⟩

end Session

end Forest

end Lexicon

/-
Module: Lexicon.Proofs.Forest.Economy
Layer: Proofs
Purpose: A forest to which keys were only ever added has no more slots in use than any other forest in
  which at least the same keys are found.
Imports: Lexicon.Proofs.Dictionary.Filing, Lexicon.Proofs.Forest.Tiling,
  Mathlib.Algebra.BigOperators.Group.Finset.Piecewise, Mathlib.Order.Interval.Finset.Nat
Trusted boundary: none
Main exports: Tree.weight, Tree.Thrifty.weight_le, Forest.freeSlots, Forest.Standing.used_add_free,
  Forest.Trim, Forest.Busy, Forest.Trim.fileBigram, Forest.Busy.fileBigram, Forest.Trim.slotCount_le
-/
import Lexicon.Proofs.Dictionary.Filing
import Lexicon.Proofs.Forest.Tiling
import Mathlib.Algebra.BigOperators.Group.Finset.Piecewise
import Mathlib.Order.Interval.Finset.Nat

namespace Lexicon

/-!
Which runs are parked in an arena depends on the order in which keys were stored, and so the number of
its slots does.  The number of those in use does not, if keys were only ever added: then it is the least
one that the keys can have, since no node is there without need.
-/

/-- A set of labels is no larger than another one with all its members. -/
theorem LabelSet.size_le_of_contains {labels wider : LabelSet}
    (among : ∀ label, labels.contains label = true → wider.contains label = true) :
    labels.size ≤ wider.size := by
  rw [← length_toList, ← length_toList]
  exact (List.monotone_filter_right _ among).length_le

/-- A run inside the first slots covers as many of them as it is long. -/
theorem sum_covers {offset length size : Nat} (inside : length = 0 ∨ offset + length ≤ size) :
    ∑ index ∈ Finset.range size, covers offset length index = length := by
  have places : (Finset.range size).filter (fun index => offset ≤ index ∧ index < offset + length) =
      Finset.Ico offset (offset + length) := by
    ext index
    rw [Finset.mem_filter, Finset.mem_range, Finset.mem_Ico]
    omega
  simp only [covers]
  rw [← Finset.card_filter, places, Nat.card_Ico, Nat.add_sub_cancel_left]

/-! ### The slots of a tree -/

namespace Tree

/-- How many slots the runs of a tree have. -/
def weight : Tree → Nat
  | .absent => 0
  | .entry .. => 0
  | .node labels _ children => labels.size + ∑ label, (children label).weight

/-- The runs of a tree that lie inside the first slots cover as many of them as they have. -/
theorem sum_claims {tree : Tree} {size : Nat}
    (inside : ∀ index, size ≤ index → tree.claims index = 0) :
    ∑ index ∈ Finset.range size, tree.claims index = tree.weight := by
  induction tree with
  | absent => exact Finset.sum_const_zero
  | entry => exact Finset.sum_const_zero
  | node labels run children ih =>
      have below : ∀ label index, size ≤ index → (children label).claims index = 0 := by
        intro label index outside
        have least := claims_child_le children label index
        have none := inside index outside
        simp only [claims] at none
        omega
      -- The last slot of the run would be claimed outside.
      have run : labels.size = 0 ∨ run + labels.size ≤ size := by
        by_contra outside
        have none := inside (run + labels.size - 1) (by omega)
        simp only [claims] at none
        rw [covers_of_mem (by omega) (by omega)] at none
        omega
      simp only [claims, weight]
      rw [Finset.sum_add_distrib, sum_covers run, Finset.sum_comm,
        Finset.sum_congr rfl fun label _ => ih label (below label)]

theorem Crowded.isNode {tree : Tree} {level : Nat} (crowded : tree.Crowded level) :
    tree.isNode = true := by
  obtain ⟨first, second, differ, has, hasOther⟩ := crowded
  cases tree with
  | absent => cases has
  | entry resident value nested =>
      simp only [lookup] at has hasOther
      split at has
      next same =>
        split at hasOther
        next sameOther => exact absurd (same.symm.trans sameOther) differ
        next => cases hasOther
      next => cases has
  | node => rfl

/-- There is a key in each child of a thrifty tree. -/
theorem Thrifty.exists_key {labels : LabelSet} {run : Nat} {children : Label → Tree} {level : Nat}
    (thrifty : (node labels run children).Thrifty level) {label : Label}
    (present : (children label).present = true) :
    ∃ key, ((children label).lookup key (level + 1)).isSome = true := by
  have crowded := (thrifty label).2
  cases shape : children label with
  | absent =>
      rw [shape] at present
      cases present
  | entry key value nested => exact ⟨key, by simp [lookup]⟩
  | node =>
      rw [shape] at crowded
      obtain ⟨key, _, _, has, _⟩ := crowded rfl
      exact ⟨key, has⟩

theorem present_of_lookup {tree : Tree} {key : Int32} {level : Nat}
    (has : (tree.lookup key level).isSome = true) : tree.present = true := by
  cases tree with
  | absent => cases has
  | entry => rfl
  | node => rfl

/-- A thrifty tree has no more slots than another one in which all its keys are found.  The induction
is on the thrifty tree: where it has a node below another one, two keys make sure that there is a node
in the other tree too. -/
theorem Thrifty.weight_le {loose : Prop} {lean : Tree} {slot slotFat : Nat → Slot} :
    ∀ {fat : Tree} {level path index place : Nat}, lean.Thrifty level → lean.Holds slot index →
      lean.Filed loose level path → path < Label.weight level → fat.Holds slotFat place →
      (lean.isNode = true → fat.isNode = true) →
      (∀ key, (lean.lookup key level).isSome = true → (fat.lookup key level).isSome = true) →
      lean.weight ≤ fat.weight := by
  induction lean with
  | absent => exact fun _ _ _ _ _ _ _ => Nat.zero_le _
  | entry => exact fun _ _ _ _ _ _ _ => Nat.zero_le _
  | node labels run children ih =>
      intro fat level path index place thrifty held filed small heldFat nodal keys
      cases fat with
      | absent => cases nodal rfl
      | entry => cases nodal rfl
      | node labelsFat runFat childrenFat =>
          have below : ∀ label key, ((children label).lookup key (level + 1)).isSome = true →
              ((childrenFat label).lookup key (level + 1)).isSome = true := by
            intro label key has
            obtain ⟨content, found⟩ := Option.isSome_iff_exists.mp has
            have same := (ofKey_of_lookup small (filed.2 label) found).2
            have further := keys key
            rw [lookup, lookup, same] at further
            exact further has
          have members : ∀ label, labels.contains label = true →
              labelsFat.contains label = true := by
            intro label member
            obtain ⟨key, has⟩ := thrifty.exists_key ((held.2.1 label).symm.trans member)
            rw [heldFat.2.1]
            exact present_of_lookup (below label key has)
          refine Nat.add_le_add (LabelSet.size_le_of_contains members)
            (Finset.sum_le_sum fun label _ => ?_)
          refine ih label (thrifty label).1 (held.2.2 label) (filed.2 label)
            (Label.add_mul_weight_lt small label) (heldFat.2.2 label) (fun node => ?_) (below label)
          -- Two keys below the lean child are two keys below the other one.
          obtain ⟨key, other, differ, has, hasOther⟩ := (thrifty label).2 node
          exact Crowded.isNode ⟨key, other, differ, below label key has, below label other hasOther⟩

end Tree

namespace Forest

/-! ### Slots in use and free slots -/

/-- How many slots there are in free runs. -/
def freeSlots (forest : Forest) : Nat :=
  ∑ length ∈ Finset.range 33, length * (forest.arena.freeRuns length).length

/-- Free runs inside the first slots cover as many of them as they have. -/
theorem sum_parked {arena : Arena} {size : Nat}
    (inside : ∀ index, size ≤ index → arena.parked index = 0) :
    ∑ index ∈ Finset.range size, arena.parked index =
      ∑ length ∈ Finset.range 33, length * (arena.freeRuns length).length := by
  have fits : ∀ length ∈ Finset.range 33, ∀ run ∈ arena.freeRuns length,
      length = 0 ∨ run + length ≤ size := by
    intro length small run among
    by_contra outside
    have none := inside (run + length - 1) (by omega)
    rw [Arena.parked, Finset.sum_eq_zero_iff] at none
    have covered := List.sum_eq_zero_iff.mp (none length small) _ (List.mem_map_of_mem among)
    rw [covers_of_mem (by omega) (by omega)] at covered
    cases covered
  have runs : ∀ {length : Nat} {runs : List Nat}, (∀ run ∈ runs, length = 0 ∨ run + length ≤ size) →
      ∑ index ∈ Finset.range size, (runs.map (covers · length index)).sum = length * runs.length := by
    intro length runs fits
    induction runs with
    | nil => exact Finset.sum_const_zero
    | cons run runs ih =>
        obtain ⟨here, others⟩ := List.forall_mem_cons.mp fits
        simp only [List.map_cons, List.sum_cons]
        rw [Finset.sum_add_distrib, sum_covers here, ih others, List.length_cons, Nat.mul_succ,
          Nat.add_comm]
  simp only [Arena.parked]
  rw [Finset.sum_comm]
  exact Finset.sum_congr rfl fun length small => runs (fits length small)

namespace Standing

variable {loose : Prop} {forest : Forest} {tables : Finset Table} {tree : Table → Tree}

/-- All slots that are held: one for each table, those of the runs, and the free ones. -/
theorem used_add_free (laid : Standing loose forest.arena tables tree) :
    ∑ table ∈ tables, (1 + (tree table).weight) + forest.freeSlots =
      ∑ index ∈ Finset.range forest.slotCount, tally forest.arena tables tree index := by
  have outside : ∀ index, forest.slotCount ≤ index → forest.arena.parked index = 0 ∧
      ∀ table ∈ tables, (tree table).claims index = 0 := by
    intro index beyond
    have sole := laid.sole index
    have available : forest.arena.available index = 1 + forest.arena.parked index := by
      exact congrArg (· + _) (if_neg (Nat.not_lt.mpr beyond))
    refine ⟨by omega, fun table member => ?_⟩
    have least := Finset.single_le_sum
      (f := fun table : Table => covers table.slot 1 index + (tree table).claims index)
      (fun _ _ => Nat.zero_le _) member
    omega
  have each : ∀ table ∈ tables, ∑ index ∈ Finset.range forest.slotCount,
      (covers table.slot 1 index + (tree table).claims index) = 1 + (tree table).weight := by
    intro table member
    rw [Finset.sum_add_distrib, Tree.sum_claims fun index beyond => (outside index beyond).2 _ member,
      sum_covers (Or.inr (laid.isEntry_slot member).1)]
  have available : ∀ index ∈ Finset.range forest.slotCount,
      forest.arena.available index = forest.arena.parked index := by
    intro index inside
    exact (congrArg (· + _) (if_pos (Finset.mem_range.mp inside))).trans (Nat.zero_add _)
  have parked := sum_parked fun index beyond => (outside index beyond).1
  rw [← Finset.sum_congr rfl available] at parked
  rw [← Finset.sum_congr rfl each, Finset.sum_comm, freeSlots, ← parked, ← Finset.sum_add_distrib]
  rfl

/-- No slot is held twice. -/
theorem used_le (laid : Standing loose forest.arena tables tree) :
    ∑ table ∈ tables, (1 + (tree table).weight) + forest.freeSlots ≤ forest.slotCount := by
  rw [laid.used_add_free]
  refine Nat.le_trans (Finset.sum_le_sum fun index _ => laid.sole index) ?_
  rw [← Finset.card_eq_sum_ones, Finset.card_range]

end Standing

/-! ### Forests to which keys were only ever added -/

/-- Some tables stand in a forest without a node that is not needed, and hold all of its slots that are
not free.  All of them but the root are nested below keys of the root. -/
structure Trim (forest : Forest) (tables : Finset Table) (tree : Table → Tree) : Prop where
  sound : Sound forest tables
  laid : Laid forest.arena tables tree
  thriving : Thriving tables tree
  whole : ∀ index, tally forest.arena tables tree index = 1
  led : ∀ table ∈ tables, table = root ∨ ∃ source, forest.nested? root source = some table

/-- There is a key in the table below each key of the root. -/
def Busy (forest : Forest) : Prop :=
  ∀ source, (forest.at? [] source).isSome = true →
    ∃ target, (forest.at? [source] target).isSome = true

theorem exists_trim_new : ∃ tables tree, Trim new tables tree := by
  obtain ⟨tree, laid⟩ := sound_new.1.laid
  refine ⟨{root}, tree, sound_new.1, laid, fun table member => ?_, Session.tally_start laid,
    fun table member => .inl (Finset.mem_singleton.mp member)⟩
  obtain ⟨labels, run, children, shape⟩ := laid.exists_node member
  have held := laid.held table member
  rw [Finset.mem_singleton.mp member] at shape held ⊢
  rw [shape] at held ⊢
  have bare : labels = LabelSet.empty := held.parts.1.symm
  refine fun label => ?_
  rw [held.absent (by rw [bare]; simp)]
  exact ⟨trivial, nofun⟩

namespace Trim

variable {forest after : Forest} {tables : Finset Table} {tree : Table → Tree} {table : Table}

theorem put (trim : Trim forest tables tree) (member : table ∈ tables) {key : Int32} {value : Nat}
    (done : forest.put table key value = (.ok (), after)) : ∃ grown, Trim after tables grown := by
  have fits : value ≤ maxValue := by
    by_contra wide
    rw [put_of_gt (Nat.lt_of_not_le wide)] at done
    cases done
  obtain ⟨answer, last, outcome, _, stored | full⟩ := put_spec trim.sound member key fits
  · obtain ⟨rfl, edited, _⟩ := stored
    cases done.symm.trans outcome
    obtain ⟨grown, shift, thriving⟩ := trim.laid.exists_shift_put forest member key value
    rw [done] at shift thriving
    refine ⟨grown, edited.sound, shift.standing, thriving rfl trim.thriving,
      fun index => (shift.tally index).trans (trim.whole index), fun other among => ?_⟩
    refine (trim.led other among).imp_right fun ⟨source, led⟩ => ⟨source, ?_⟩
    rw [nested?_eq, edited.entry root trim.sound.rooted]
    rw [nested?_eq] at led
    split
    next here => rw [← here.1, ← here.2]; exact led
    next => exact led
  · cases full.1.symm.trans (congrArg Prod.fst (outcome.symm.trans done))

theorem createNested (trim : Trim forest tables tree) {key : Int32}
    (done : forest.createNested? root key = (some table, after)) :
    ∃ wider grown, Trim after wider grown ∧ table ∈ wider := by
  have rooted := trim.sound.rooted
  obtain ⟨wider, grown, shift, widened, thriving⟩ := trim.laid.exists_shift_createNested forest
    rooted rooted key fun nested => trim.sound.nested_mem rooted
  rw [done] at shift widened
  dsimp only at shift widened
  have spec := createNested_spec trim.sound rooted key
  rw [done] at spec
  split at spec
  next => cases spec
  next has =>
    cases spec
    rw [Finset.insert_eq_of_mem (trim.sound.linked rooted has).1] at widened
    subst widened
    exact ⟨_, grown, ⟨trim.sound, shift.standing, thriving trim.thriving,
      fun index => (shift.tally index).trans (trim.whole index), trim.led⟩,
      (trim.sound.linked rooted has).1⟩
  next has =>
    obtain ⟨refused, _⟩ | ⟨fresh, last, created, founded⟩ := spec
    · cases refused
    · cases created
      subst widened
      refine ⟨_, grown, ⟨founded.sound, shift.standing, thriving trim.thriving,
        fun index => (shift.tally index).trans (trim.whole index), fun other among => ?_⟩,
        Finset.mem_insert_self _ _⟩
      rcases Finset.mem_insert.mp among with rfl | before
      · refine .inr ⟨key, ?_⟩
        rw [nested?_eq, founded.entry root rooted, if_pos ⟨rfl, rfl⟩]
        rfl
      · refine (trim.led other before).imp_right fun ⟨source, led⟩ => ⟨source, ?_⟩
        rw [nested?_eq] at led ⊢
        rw [founded.entry root rooted, if_neg]
        · exact led
        · rintro ⟨-, rfl⟩
          rw [has] at led
          cases led

open Dictionary (fileBigram wordKey descend)

/-- Filing a bigram adds a key to the root, if it is new, and one to the table below it. -/
theorem fileBigram (trim : Trim forest tables tree) {source target record : Nat}
    (done : (fileBigram source target record).apply forest = (.ok (), after)) :
    ∃ wider grown, Trim after wider grown := by
  have nested : ∀ {forest : Forest} {tables : Finset Table} {tree : Table → Tree},
      Trim forest tables tree →
      (Dictionary.nest root (wordKey source) >>= fun table => Mutation.ofChange fun followers =>
        followers.put table (wordKey target) record).apply forest = (.ok (), after) →
      ∃ wider grown, Trim after wider grown := by
    intro forest tables tree trim done
    rw [Mutation.apply_bind, Dictionary.nest, Mutation.apply_ofChange] at done
    rcases created : forest.createNested? root (wordKey source) with ⟨_ | below, wide⟩
    · rw [created] at done
      cases done
    · rw [created] at done
      obtain ⟨wider, _, trim, member⟩ := trim.createNested created
      exact ⟨wider, trim.put member done⟩
  rw [Dictionary.fileBigram_eq, Dictionary.entering_eq] at done
  split at done
  next => exact nested trim done
  next =>
    rw [Mutation.apply_bind, Mutation.apply_ofChange] at done
    rcases stored : forest.put root (wordKey source) 0 with ⟨_ | _, middle⟩
    · rw [stored] at done
      cases done
    · rw [stored] at done
      obtain ⟨_, trim⟩ := trim.put trim.sound.rooted stored
      exact nested trim done

end Trim

theorem busy_new : Busy new := by
  intro source has
  rw [at?_new] at has
  cases has

/-- Filing a bigram leaves no key of the root without a key in the table below it. -/
theorem Busy.fileBigram {forest after : Forest} (busy : Busy forest) (lawful : Lawful forest)
    {source target record : Nat} (fits : record ≤ maxValue) (room : forest.slotCount + 65 ≤ maxSlots)
    (done : (Dictionary.fileBigram source target record).apply forest = (.ok (), after)) :
    Busy after := by
  have top : Dictionary.descend forest root [] = some root := rfl
  obtain ⟨nested, wide, lawfulWide, growth, along, filed, goesOn⟩ :=
    Dictionary.apply_entering lawful top (Dictionary.wordKey source) (by omega)
  obtain ⟨last, stored, _, refiled, _⟩ :=
    lawfulWide.put_at along (Dictionary.wordKey target) fits (by split at growth <;> omega)
  rw [Dictionary.fileBigram_eq, goesOn] at done
  cases done.symm.trans stored
  intro name has
  rw [refiled.filed, if_neg (by simp), filed] at has
  by_cases same : name = Dictionary.wordKey source
  · refine ⟨Dictionary.wordKey target, ?_⟩
    rw [refiled.filed, if_pos ⟨by rw [same]; rfl, rfl⟩]
    rfl
  · rw [if_neg fun both => same both.2] at has
    obtain ⟨key, below⟩ := busy name has
    refine ⟨key, ?_⟩
    rw [refiled.filed, if_neg (by simpa using fun here => absurd here same), filed, if_neg (by simp)]
    exact below

/-! ### Pairs of tables -/

/-- All keys that are found below keys of the root of one forest are found there in another one. -/
def Among (lean fat : Forest) : Prop :=
  ∀ source target, (lean.at? [source] target).isSome = true →
    (fat.at? [source] target).isSome = true

/-- The roots of two forests, or tables below the same key of each. -/
def Paired (lean fat : Forest) (table partner : Table) : Prop :=
  table = root ∧ partner = root ∨
    ∃ source, lean.nested? root source = some table ∧ fat.nested? root source = some partner

section Pairs

variable {lean fat : Forest} {table other partner : Table} {others : Finset Table}

theorem isSome_at?_nil {forest : Forest} (key : Int32) :
    (forest.at? [] key).isSome = (forest.under? root key).isSome := by
  rw [Sound.at?_of_descend rfl, Option.isSome_map]

theorem isSome_at?_singleton {forest : Forest} {source : Int32}
    (nested : forest.nested? root source = some table) (key : Int32) :
    (forest.at? [source] key).isSome = (forest.under? table key).isSome := by
  have along : Dictionary.descend forest root [source] = some table :=
    (descend_snoc forest root [] source).trans nested
  rw [Sound.at?_of_descend along, Option.isSome_map]

theorem exists_under_of_nested {forest : Forest} {source : Int32}
    (nested : forest.nested? root source = some table) :
    ∃ value, forest.under? root source = some (value, some table) := by
  rw [nested?_eq] at nested
  obtain ⟨⟨value, _⟩, has, rfl⟩ := Option.bind_eq_some_iff.mp nested
  exact ⟨value, has⟩

/-- Below the keys of the root of a busy forest there are tables in another one, too. -/
theorem Busy.exists_nested (busy : Busy lean) (among : Among lean fat) {source : Int32}
    (has : (lean.at? [] source).isSome = true) : ∃ partner, fat.nested? root source = some partner := by
  obtain ⟨target, has⟩ := busy source has
  have has := among source target has
  rw [at?, show Dictionary.descend fat root [source] = fat.nested? root source from
    descend_snoc fat root [] source] at has
  cases nested : fat.nested? root source with
  | none =>
      rw [nested] at has
      cases has
  | some partner => exact ⟨partner, rfl⟩

theorem Trim.exists_paired {tables : Finset Table} {tree : Table → Tree}
    (trim : Trim lean tables tree) (busy : Busy lean) (among : Among lean fat)
    (member : table ∈ tables) : ∃ partner, Paired lean fat table partner := by
  rcases trim.led table member with top | ⟨source, nested⟩
  · exact ⟨root, .inl ⟨top, rfl⟩⟩
  · obtain ⟨value, has⟩ := exists_under_of_nested nested
    have keyed : (lean.at? [] source).isSome = true := by
      rw [isSome_at?_nil, has]
      rfl
    obtain ⟨partner, nestedFat⟩ := busy.exists_nested among keyed
    exact ⟨partner, .inr ⟨source, nested, nestedFat⟩⟩

namespace Paired

theorem mem (paired : Paired lean fat table partner) (sound : Sound fat others) :
    partner ∈ others := by
  rcases paired with ⟨_, rfl⟩ | ⟨source, _, nested⟩
  · exact sound.rooted
  · exact sound.nested_mem sound.rooted nested

/-- No table is paired with two others. -/
theorem inj (paired : Paired lean fat table partner) (further : Paired lean fat other partner)
    (sound : Sound fat others) : table = other := by
  rcases paired with ⟨rfl, top⟩ | ⟨source, nested, nestedFat⟩
  · rcases further with ⟨rfl, _⟩ | ⟨_, _, nestedFat⟩
    · rfl
    · obtain ⟨_, has⟩ := exists_under_of_nested nestedFat
      exact absurd top (sound.linked sound.rooted has).2
  · obtain ⟨_, has⟩ := exists_under_of_nested nestedFat
    rcases further with ⟨_, top⟩ | ⟨name, nestedOther, nestedOtherFat⟩
    · exact absurd top (sound.linked sound.rooted has).2
    · obtain ⟨_, hasOther⟩ := exists_under_of_nested nestedOtherFat
      rw [(sound.owned sound.rooted sound.rooted has hasOther).2, nestedOther] at nested
      exact (Option.some.inj nested).symm

/-- What is found in a table is found in its partner. -/
theorem keys (paired : Paired lean fat table partner) (busy : Busy lean) (among : Among lean fat)
    {key : Int32} (has : (lean.under? table key).isSome = true) :
    (fat.under? partner key).isSome = true := by
  rcases paired with ⟨rfl, rfl⟩ | ⟨source, nested, nestedFat⟩
  · rw [← isSome_at?_nil] at has
    obtain ⟨_, nested⟩ := busy.exists_nested among has
    obtain ⟨_, below⟩ := exists_under_of_nested nested
    rw [below]
    rfl
  · rw [← isSome_at?_singleton nested] at has
    rw [← isSome_at?_singleton nestedFat]
    exact among source key has

end Paired

end Pairs

/-- A forest to which keys were only ever added takes no more slots, but for the free ones, than another
one in which the same keys are found below keys of the root.  Each of its tables has a partner among the
tables of the other forest: below the same key, and with at least the same keys. -/
theorem Trim.slotCount_le {lean fat : Forest} {tables : Finset Table} {tree : Table → Tree}
    (trim : Trim lean tables tree) (busy : Busy lean) (lawful : Lawful fat) (among : Among lean fat) :
    lean.slotCount + fat.freeSlots ≤ fat.slotCount + lean.freeSlots := by
  obtain ⟨others, sound⟩ := lawful
  obtain ⟨treeFat, laid⟩ := sound.laid
  choose! partner paired using fun table (member : table ∈ tables) =>
    trim.exists_paired busy among member
  have inside : ∀ table ∈ tables, partner table ∈ others :=
    fun table member => (paired table member).mem sound
  have lighter : ∀ table ∈ tables,
      1 + (tree table).weight ≤ 1 + (treeFat (partner table)).weight := by
    intro table member
    have there := inside table member
    refine Nat.add_le_add_left ((trim.thriving table member).weight_le (trim.laid.held table member)
      (trim.laid.filed table member) Nat.one_pos (laid.held _ there) (fun _ => laid.node _ there) ?_) 1
    intro key has
    have said : (lean.under? table key).isSome = true := by
      rw [trim.laid.under?_eq lean member, Option.isSome_map]
      exact has
    have found := (paired table member).keys busy among said
    rwa [laid.under?_eq fat there, Option.isSome_map] at found
  have total : ∑ table ∈ tables, (1 + (tree table).weight) ≤
      ∑ table ∈ others, (1 + (treeFat table).weight) :=
    calc ∑ table ∈ tables, (1 + (tree table).weight)
      _ ≤ ∑ table ∈ tables, (1 + (treeFat (partner table)).weight) := Finset.sum_le_sum lighter
      _ = ∑ table ∈ tables.image partner, (1 + (treeFat table).weight) := by
          rw [Finset.sum_image]
          intro table member other memberOther same
          exact (paired table member).inj (same ▸ paired other memberOther) sound
      _ ≤ ∑ table ∈ others, (1 + (treeFat table).weight) :=
          Finset.sum_le_sum_of_subset (Finset.image_subset_iff.mpr inside)
  have used := trim.laid.used_add_free
  rw [Finset.sum_congr rfl fun index _ => trim.whole index, ← Finset.card_eq_sum_ones,
    Finset.card_range] at used
  have usedFat := laid.used_le
  omega

end Forest

end Lexicon

/-
Module: Lexicon.Proofs.Forest.Twins
Layer: Proofs
Purpose: Two sessions that say the same, one of which has at least as much to reuse: whatever is
  asked of both, they go on to say the same, and the one stays no larger than the other.
Imports: Lexicon.Proofs.Forest.Atlas, Lexicon.Proofs.Forest.Listing,
  Lexicon.Proofs.Forest.Parallel
Trusted boundary: none
Main exports: Forest.Session.Alongside, Forest.Session.Twins, Forest.Session.Twins.step
-/
import Lexicon.Proofs.Forest.Atlas
import Lexicon.Proofs.Forest.Listing
import Lexicon.Proofs.Forest.Parallel

namespace Lexicon

namespace Forest

/-- An arena in which tables are laid holds just one tree where a table stands. -/
theorem Laid.eq_of_holds {arena : Arena} {tables : Finset Table} {tree : Table → Tree}
    {table : Table} {new : Tree} (laid : Laid arena tables tree) (member : table ∈ tables)
    (held : new.Holds arena.slot table.slot) (node : new.isNode = true) : tree table = new :=
  (laid.held table member).unique held
    ((present_of_isNode (laid.node table member)).trans (present_of_isNode node).symm)

/-- The tables that stood in an arena stand in it as before when it gets an empty table. -/
theorem Laid.eq_of_extend {arena next : Arena} {tables others : Finset Table}
    {tree after : Table → Tree} {offset : Nat} {table : Table} (laid : Laid arena tables tree)
    (taken : Arena.Taken arena 1 offset next)
    (laidAfter : Laid (next.write offset Slot.empty) others after) (member : table ∈ tables)
    (among : table ∈ others) : after table = tree table := by
  obtain ⟨fresh, _, wide⟩ := laid.extend taken
  have differ : table ≠ ⟨offset⟩ := fun same => fresh (same ▸ member)
  have held := wide.held _ (Finset.mem_insert_of_mem member)
  rw [Function.update_of_ne differ] at held
  exact laidAfter.eq_of_holds among held (laid.node table member)

/-- Creating a table below an entry that has none takes one slot. -/
theorem createNested_eq (forest : Forest) {table : Table} {key : Int32} {place : Place} {value : Nat}
    (located : forest.locate table key = some place)
    (here : forest.arena.slot place.slot = .entry key value none) :
    forest.createNested? table key =
      match forest.arena.alloc 1 with
      | (none, next) => (none, ⟨next, forest.count⟩)
      | (some offset, next) =>
          (some ⟨offset⟩, ⟨(next.write offset Slot.empty).write place.slot
            (.entry key value (some offset)), forest.count⟩) := by
  obtain ⟨arena, count⟩ := forest
  dsimp only at here ⊢
  split
  next allocation => exact (Nests.refused located here allocation).createNested_eq
  next allocation => exact (Nests.founded located here allocation).createNested_eq

namespace Session

/-! ### Sessions side by side -/

/-- Two sessions have handed out the same tables, up to their places, and the first one has at least
as much to reuse as the second one. -/
structure Alongside (lean fat : Session) : Prop where
  leaner : lean.forest.arena.Leaner fat.forest.arena
  length : lean.handles.length = fat.handles.length
  distinct : lean.handles.Nodup
  distinctFat : fat.handles.Nodup
  laid : ∃ tree treeFat : Table → Tree,
    Laid lean.forest.arena lean.handles.toFinset tree ∧
      Laid fat.forest.arena fat.handles.toFinset treeFat ∧
        ∀ number < lean.handles.length,
          (tree (lean.handles.getD number root)).Alike (treeFat (fat.handles.getD number root))

namespace Alongside

variable {lean fat : Session} {after afterFat : Forest} {number : Nat}

theorem parallel {tree treeFat : Table → Tree} (beside : Alongside lean fat)
    (laid : Laid lean.forest.arena lean.handles.toFinset tree)
    (laidFat : Laid fat.forest.arena fat.handles.toFinset treeFat)
    (inside : number < lean.handles.length)
    (alike : (tree (lean.handles.getD number root)).Alike
      (treeFat (fat.handles.getD number root))) :
    Parallel lean.forest.arena fat.forest.arena (tree (lean.handles.getD number root))
      (treeFat (fat.handles.getD number root)) (lean.handles.getD number root).slot
      (fat.handles.getD number root).slot := by
  have insideFat : number < fat.handles.length := beside.length ▸ inside
  have stands := laid.stands (mem_toFinset_getD inside)
  have standsFat := laidFat.stands (mem_toFinset_getD insideFat)
  exact ⟨beside.leaner, alike, stands.held, standsFat.held, stands.apart, standsFat.apart⟩

/-- Sessions stay side by side when tables of the same number move. -/
theorem edit (beside : Alongside lean fat) (inside : number < lean.handles.length)
    (laidAfter : ∃ tree, Laid after.arena lean.handles.toFinset tree)
    (laidAfterFat : ∃ tree, Laid afterFat.arena fat.handles.toFinset tree)
    (moves : ∀ {tree treeFat : Table → Tree},
      Laid lean.forest.arena lean.handles.toFinset tree →
      Laid fat.forest.arena fat.handles.toFinset treeFat →
      Parallel lean.forest.arena fat.forest.arena (tree (lean.handles.getD number root))
        (treeFat (fat.handles.getD number root)) (lean.handles.getD number root).slot
        (fat.handles.getD number root).slot →
      Moves lean.forest.arena after.arena fat.forest.arena afterFat.arena
        (tree (lean.handles.getD number root)) (treeFat (fat.handles.getD number root))
        (lean.handles.getD number root).slot (fat.handles.getD number root).slot) :
    Alongside ⟨after, lean.handles⟩ ⟨afterFat, fat.handles⟩ := by
  obtain ⟨tree, treeFat, laid, laidFat, alike⟩ := beside.laid
  obtain ⟨last, laidLast⟩ := laidAfter
  obtain ⟨lastFat, laidLastFat⟩ := laidAfterFat
  have insideFat : number < fat.handles.length := beside.length ▸ inside
  have member := mem_toFinset_getD inside
  have memberFat := mem_toFinset_getD insideFat
  obtain ⟨leaner, new, newFat, alikeNew, change, changeFat⟩ :=
    moves laid laidFat (beside.parallel laid laidFat inside (alike number inside))
  have node := change.rooted (laid.node _ member)
  have nodeFat := changeFat.rooted (laidFat.node _ memberFat)
  have filed : new.Filed False 0 0 :=
    laidLast.eq_of_holds member change.held node ▸ laidLast.filed _ member
  have filedFat : newFat.Filed False 0 0 :=
    laidLastFat.eq_of_holds memberFat changeFat.held nodeFat ▸ laidLastFat.filed _ memberFat
  refine ⟨leaner, beside.length, beside.distinct, beside.distinctFat, _, _,
    laid.change member change filed, laidFat.change memberFat changeFat filedFat, ?_⟩
  intro other among
  by_cases same : other = number
  · subst same
    rw [Function.update_self, Function.update_self]
    exact alikeNew
  · rw [Function.update_of_ne, Function.update_of_ne]
    · exact alike other among
    · exact fun equal => same (getD_inj_of_nodup beside.distinctFat (beside.length ▸ among) insideFat
        equal)
    · exact fun equal => same (getD_inj_of_nodup beside.distinct among inside equal)

/-- Sessions stay side by side when both get an empty table. -/
theorem extend (beside : Alongside lean fat) {offset offsetFat : Nat} {next nextFat : Arena}
    (taken : Arena.Taken lean.forest.arena 1 offset next)
    (takenFat : Arena.Taken fat.forest.arena 1 offsetFat nextFat)
    (leaner : next.Leaner nextFat) (count countFat : Nat) :
    Alongside ⟨⟨next.write offset Slot.empty, count⟩, lean.handles ++ [⟨offset⟩]⟩
      ⟨⟨nextFat.write offsetFat Slot.empty, countFat⟩, fat.handles ++ [⟨offsetFat⟩]⟩ := by
  obtain ⟨tree, treeFat, laid, laidFat, alike⟩ := beside.laid
  obtain ⟨fresh, _, wide⟩ := laid.extend taken
  obtain ⟨freshFat, _, wideFat⟩ := laidFat.extend takenFat
  refine ⟨leaner.write _ _ _ _, by simp [beside.length], nodup_append beside.distinct fresh,
    nodup_append beside.distinctFat freshFat, _, _, toFinset_append lean.handles _ ▸ wide,
    toFinset_append fat.handles _ ▸ wideFat, ?_⟩
  intro number inside
  rw [List.length_append, List.length_singleton] at inside
  rcases Nat.lt_or_eq_of_le (Nat.le_of_lt_succ inside) with old | rfl
  · have oldFat : number < fat.handles.length := beside.length ▸ old
    rw [List.getD_append _ _ _ _ old, List.getD_append _ _ _ _ oldFat,
      Function.update_of_ne (ne_of_mem_of_not_mem (mem_toFinset_getD old) fresh),
      Function.update_of_ne (ne_of_mem_of_not_mem (mem_toFinset_getD oldFat) freshFat)]
    exact alike number old
  · rw [getD_append_length, beside.length, getD_append_length, Function.update_self,
      Function.update_self]
    exact Tree.Alike.bare

/-- Sessions stay side by side when an entry of each gets an empty table nested below it. -/
theorem nest (beside : Alongside lean fat) {key : Int32} {place placeFat : Place}
    {offset offsetFat value valueFat : Nat} {next nextFat : Arena} {tree treeFat : Table → Tree}
    (laid : Laid lean.forest.arena lean.handles.toFinset tree)
    (laidFat : Laid fat.forest.arena fat.handles.toFinset treeFat)
    (inside : number < lean.handles.length)
    (found : FoundBoth key (tree (lean.handles.getD number root))
      (treeFat (fat.handles.getD number root)) (lean.handles.getD number root).slot
      (fat.handles.getD number root).slot place placeFat value valueFat none none)
    (taken : Arena.Taken lean.forest.arena 1 offset next)
    (takenFat : Arena.Taken fat.forest.arena 1 offsetFat nextFat) (leaner : next.Leaner nextFat)
    (top : offset ≠ 0) (topFat : offsetFat ≠ 0)
    (founded : Nested lean.forest ⟨(next.write offset Slot.empty).write place.slot
        (.entry key value (some offset)), lean.forest.count⟩ lean.handles.toFinset
      (lean.handles.getD number root) key value ⟨offset⟩)
    (foundedFat : Nested fat.forest ⟨(nextFat.write offsetFat Slot.empty).write placeFat.slot
        (.entry key valueFat (some offsetFat)), fat.forest.count⟩ fat.handles.toFinset
      (fat.handles.getD number root) key valueFat ⟨offsetFat⟩) :
    Alongside
      ⟨⟨(next.write offset Slot.empty).write place.slot (.entry key value (some offset)),
        lean.forest.count⟩, lean.handles ++ [⟨offset⟩]⟩
      ⟨⟨(nextFat.write offsetFat Slot.empty).write placeFat.slot
        (.entry key valueFat (some offsetFat)), fat.forest.count⟩, fat.handles ++ [⟨offsetFat⟩]⟩ := by
  have insideFat : number < fat.handles.length := beside.length ▸ inside
  obtain ⟨_, insideNew, _⟩ := laid.extend taken
  obtain ⟨_, insideNewFat, _⟩ := laidFat.extend takenFat
  have wider := beside.extend taken takenFat leaner lean.forest.count fat.forest.count
  have among : number < (lean.handles ++ [(⟨offset⟩ : Table)]).length := by
    rw [List.length_append]
    omega
  refine wider.edit among (toFinset_append lean.handles _ ▸ founded.sound.laid)
    (toFinset_append fat.handles _ ▸ foundedFat.sound.laid) ?_
  -- The trees that the wider sessions have for the table are those from before.
  intro after afterFat laidAfter laidAfterFat both
  rw [List.getD_append _ _ _ _ inside, List.getD_append _ _ _ _ insideFat,
    laid.eq_of_extend taken laidAfter (mem_toFinset_getD inside)
      (List.mem_toFinset.mpr (List.mem_append_left _ (mem_getD inside))),
    laidFat.eq_of_extend takenFat laidAfterFat (mem_toFinset_getD insideFat)
      (List.mem_toFinset.mpr (List.mem_append_left _ (mem_getD insideFat)))] at both ⊢
  exact found.nest both top topFat (by simpa using insideNew) (by simpa using insideNewFat)

/-- A session is beside itself. -/
theorem refl {session : Session} (sound : Sound session.forest session.handles.toFinset)
    (distinct : session.handles.Nodup) : Alongside session session := by
  obtain ⟨tree, laid⟩ := sound.laid
  exact ⟨.refl _, rfl, distinct, distinct, tree, tree, laid, laid, fun _ _ => .refl _⟩

end Alongside

/-- A key is found where the atlas has it, and then nests a table where the atlas says so. -/
theorem Mirrors.locate {session : Session} {atlas : Atlas} (mirrors : Mirrors session atlas)
    (table : Nat) (key : Int32) {tree : Table → Tree}
    (laid : Laid session.forest.arena session.handles.toFinset tree) :
    match (atlas.chart table)[key]? with
    | none => session.forest.locate (session.table table) key = none
    | some content => ∃ place labels run children value nested path,
        session.forest.locate (session.table table) key = some place ∧
        session.forest.arena.slot place.slot = .entry key value nested ∧
        Found key (tree (session.table table)) 0 0 (session.table table).slot place labels run children
          value nested path ∧
        nested.isSome = content.2.isSome := by
  have has := mirrors.here table key
  rw [laid.under?_eq session.forest (mirrors.member table)] at has
  rcases laid.locate session.forest (mirrors.member table) key with ⟨nowhere, silent⟩ | found
  · rw [silent] at has
    cases charted : (atlas.chart table)[key]? with
    | none => exact nowhere
    | some content =>
        rw [charted] at has
        cases has
  · obtain ⟨place, labels, run, children, value, nested, path, located, found, here⟩ := found
    rw [found.said] at has
    cases charted : (atlas.chart table)[key]? with
    | none =>
        rw [charted] at has
        cases has
    | some content =>
        rw [charted] at has
        have nesting := congrArg (fun content => (content.bind Prod.snd).isSome) has
        exact ⟨place, labels, run, children, value, nested, path, located, here, found,
          by simpa [named, translate] using nesting⟩

/-- Two sessions side by side say the same about all keys, namely what an atlas says. -/
structure Twins (lean fat : Session) (atlas : Atlas) : Prop where
  mirrors : Mirrors lean atlas
  mirrorsFat : Mirrors fat atlas
  beside : Alongside lean fat

namespace Twins

variable {lean fat : Session} {atlas : Atlas}

/-- The number of the table that a request means is the same on both sides. -/
theorem table_eq (twins : Twins lean fat atlas) (table : Nat) :
    ∃ number < lean.handles.length, lean.table table = lean.handles.getD number root ∧
      fat.table table = fat.handles.getD number root := by
  refine ⟨Atlas.resolve atlas.charts.length table, ?_, ?_, ?_⟩
  · rw [twins.mirrors.length]
    exact twins.mirrors.resolve_lt table
  · rw [Session.table, twins.mirrors.length]
  · rw [Session.table, twins.mirrorsFat.length]

/-- A key is found on both sides or on none, and says the same. -/
theorem locate (twins : Twins lean fat atlas) {table number : Nat}
    (same : lean.table table = lean.handles.getD number root)
    (sameFat : fat.table table = fat.handles.getD number root) (key : Int32)
    {tree treeFat : Table → Tree} (laid : Laid lean.forest.arena lean.handles.toFinset tree)
    (laidFat : Laid fat.forest.arena fat.handles.toFinset treeFat) :
    (lean.forest.locate (lean.handles.getD number root) key = none ∧
        fat.forest.locate (fat.handles.getD number root) key = none ∧
        (atlas.chart table)[key]? = none) ∨
      ∃ place placeFat value valueFat nested nestedFat,
        lean.forest.locate (lean.handles.getD number root) key = some place ∧
        fat.forest.locate (fat.handles.getD number root) key = some placeFat ∧
        lean.forest.arena.slot place.slot = .entry key value nested ∧
        fat.forest.arena.slot placeFat.slot = .entry key valueFat nestedFat ∧
        FoundBoth key (tree (lean.handles.getD number root))
          (treeFat (fat.handles.getD number root)) (lean.handles.getD number root).slot
          (fat.handles.getD number root).slot place placeFat value valueFat nested nestedFat ∧
        ∃ content, (atlas.chart table)[key]? = some content ∧
          nested.isSome = content.2.isSome ∧ nestedFat.isSome = content.2.isSome := by
  have here := twins.mirrors.locate table key laid
  have hereFat := twins.mirrorsFat.locate table key laidFat
  rw [same] at here
  rw [sameFat] at hereFat
  cases charted : (atlas.chart table)[key]? with
  | none =>
      rw [charted] at here hereFat
      exact .inl ⟨here, hereFat, rfl⟩
  | some content =>
      rw [charted] at here hereFat
      obtain ⟨place, labels, run, children, value, nested, path, located, here, found, nests⟩ := here
      obtain ⟨placeFat, labelsFat, runFat, childrenFat, valueFat, nestedFat, pathFat, locatedFat,
        hereFat, foundFat, nestsFat⟩ := hereFat
      exact .inr ⟨place, placeFat, value, valueFat, nested, nestedFat, located, locatedFat, here,
        hereFat, ⟨⟨_, _, _, _, found⟩, ⟨_, _, _, _, foundFat⟩⟩, content, rfl, nests, nestsFat⟩

theorem step_put (twins : Twins lean fat atlas) (table : Nat) (key : Int32) (value : Nat)
    (roomy : ¬ fat.Short (.put table key value)) :
    ¬ lean.Short (.put table key value) ∧
      Alongside (lean.step (.put table key value)).2 (fat.step (.put table key value)).2 := by
  simp only [Short, Session.step] at roomy ⊢
  by_cases wide : maxValue < value
  · rw [put_of_gt wide, put_of_gt wide]
    refine ⟨?_, twins.beside⟩
    rintro ⟨⟩
  have fits : value ≤ maxValue := Nat.le_of_not_lt wide
  obtain ⟨number, inside, same, sameFat⟩ := twins.table_eq table
  have insideFat : number < fat.handles.length := twins.beside.length ▸ inside
  rw [sameFat] at roomy
  rw [same, sameFat]
  have laidAfter : ∀ {forest : Forest} {tables : Finset Table} {table : Table}, Sound forest tables →
      table ∈ tables → ∃ tree, Laid (forest.put table key value).2.arena tables tree := by
    intro forest tables table sound member
    obtain ⟨_, _, outcome, _, ⟨_, edited, _⟩ | ⟨_, _, edited, _⟩⟩ := put_spec sound member key fits
    · rw [outcome]
      exact edited.sound.laid
    · rw [outcome]
      exact edited.sound.laid
  have done : (fat.forest.put (fat.handles.getD number root) key value).1 = .ok () := by
    obtain ⟨_, _, outcome, _, ⟨answer, _⟩ | ⟨answer, _⟩⟩ :=
      put_spec twins.mirrorsFat.sound (mem_toFinset_getD insideFat) key fits
    · rw [outcome, answer]
    · exact absurd (congrArg Prod.fst outcome |>.trans answer) roomy
  have moved : ∀ {tree treeFat : Table → Tree},
      Laid lean.forest.arena lean.handles.toFinset tree →
      Parallel lean.forest.arena fat.forest.arena (tree (lean.handles.getD number root))
        (treeFat (fat.handles.getD number root)) (lean.handles.getD number root).slot
        (fat.handles.getD number root).slot → _ :=
    fun laid both => both.put key (laid.node _ (mem_toFinset_getD inside)) fits done
  refine ⟨?_, twins.beside.edit inside (laidAfter twins.mirrors.sound (mem_toFinset_getD inside))
    (laidAfter twins.mirrorsFat.sound (mem_toFinset_getD insideFat)) ?_⟩
  · obtain ⟨tree, treeFat, laid, laidFat, alike⟩ := twins.beside.laid
    rw [(moved laid (twins.beside.parallel laid laidFat inside (alike number inside))).1]
    rintro ⟨⟩
  · intro tree treeFat laid _ both
    exact (moved laid both).2

theorem step_erase (twins : Twins lean fat atlas) (table : Nat) (key : Int32) :
    Alongside (lean.step (.erase table key)).2 (fat.step (.erase table key)).2 := by
  obtain ⟨number, inside, same, sameFat⟩ := twins.table_eq table
  have insideFat : number < fat.handles.length := twins.beside.length ▸ inside
  have member := mem_toFinset_getD inside
  have memberFat := mem_toFinset_getD insideFat
  simp only [Session.step, same, sameFat]
  have laidAfter : ∀ {forest : Forest} {tables : Finset Table} {table : Table}, Sound forest tables →
      table ∈ tables → ∃ tree, Laid (forest.erase table key).2.arena tables tree := by
    intro forest tables table sound member
    obtain ⟨_, outcome, edited, _⟩ := erase_spec sound member key
    rw [outcome]
    exact edited.sound.laid
  refine twins.beside.edit inside (laidAfter twins.mirrors.sound member)
    (laidAfter twins.mirrorsFat.sound memberFat) ?_
  intro tree treeFat laid laidFat both
  rcases twins.locate same sameFat key laid laidFat with ⟨nowhere, nowhereFat, _⟩ | found
  · rw [erase_of_nowhere nowhere, erase_of_nowhere nowhereFat]
    have node := present_of_isNode (laid.node _ member)
    have nodeFat := present_of_isNode (laidFat.node _ memberFat)
    exact ⟨both.leaner, _, _, both.alike, .refl node both.held, .refl nodeFat both.heldFat⟩
  · obtain ⟨_, _, _, _, _, _, located, locatedFat, _, _, found, _⟩ := found
    rw [erase_of_located located, erase_of_located locatedFat]
    exact found.erase both

/-- The entries of a key on both sides get an empty table each. -/
theorem nest (twins : Twins lean fat atlas) {table value : Nat} {key : Int32}
    (lacks : (atlas.chart table)[key]? = some (value, none))
    (roomy : ¬ fat.Short (.createNested table key)) :
    ¬ lean.Short (.createNested table key) ∧
      Alongside (lean.step (.createNested table key)).2 (fat.step (.createNested table key)).2 := by
  obtain ⟨number, inside, same, sameFat⟩ := twins.table_eq table
  have insideFat : number < fat.handles.length := twins.beside.length ▸ inside
  have member := mem_toFinset_getD inside
  have memberFat := mem_toFinset_getD insideFat
  obtain ⟨tree, treeFat, laid, laidFat, _⟩ := twins.beside.laid
  rcases twins.locate same sameFat key laid laidFat with ⟨_, _, nothing⟩ | found
  · rw [lacks] at nothing
    cases nothing
  obtain ⟨place, placeFat, _, _, nested, nestedFat, located, locatedFat, here, hereFat, found, content,
    charted, bare, bareFat⟩ := found
  rw [lacks] at charted
  cases charted
  obtain rfl := Option.isNone_iff_eq_none.mp (by simpa using bare)
  obtain rfl := Option.isNone_iff_eq_none.mp (by simpa using bareFat)
  have created := createNested_eq lean.forest located here
  have createdFat := createNested_eq fat.forest locatedFat hereFat
  cases allocated : fat.forest.arena.alloc 1 with
  | mk answer nextFat =>
  rw [allocated] at createdFat
  cases answer with
  | none =>
      refine absurd ⟨?_, ?_⟩ roomy
      · rw [sameFat, contains, locatedFat]
        rfl
      · rw [sameFat, createdFat]
  | some offsetFat =>
  obtain ⟨offset, next, allocatedBeside, leaner⟩ := twins.beside.leaner.alloc (by decide) allocated
  rw [allocatedBeside] at created
  have short : ¬ lean.Short (.createNested table key) := by
    rintro ⟨_, refused⟩
    rw [same, created] at refused
    cases refused
  refine ⟨short, ?_⟩
  have taken := Arena.alloc_taken (by decide) allocatedBeside
  have takenFat := Arena.alloc_taken (by decide) allocated
  have founded := founded_of_taken twins.mirrors.sound member located here taken
  have foundedFat := founded_of_taken twins.mirrorsFat.sound memberFat locatedFat hereFat takenFat
  have new : (⟨offset⟩ : Table) ∉ lean.handles :=
    fun among => founded.unknown (List.mem_toFinset.mpr among)
  have newFat : (⟨offsetFat⟩ : Table) ∉ fat.handles :=
    fun among => foundedFat.unknown (List.mem_toFinset.mpr among)
  simp only [Session.step, same, sameFat, created, createdFat, hand, if_neg new, if_neg newFat]
  refine twins.beside.nest laid laidFat inside found taken takenFat leaner ?_ ?_ founded foundedFat
  · rintro rfl
    exact founded.unknown twins.mirrors.sound.rooted
  · rintro rfl
    exact foundedFat.unknown twins.mirrorsFat.sound.rooted

end Twins

section Idle

variable {session : Session} {atlas : Atlas}

/-- Nothing is created where there is no entry, or where a table is nested already. -/
theorem Mirrors.createNested_idle (mirrors : Mirrors session atlas) {table : Nat} {key : Int32}
    (idle : ∀ value, (atlas.chart table)[key]? ≠ some (value, none)) :
    ¬ session.Short (.createNested table key) ∧
      (session.step (.createNested table key)).2 = session := by
  have has := mirrors.here table key
  have spec := createNested_spec mirrors.sound (mirrors.member table) key
  have present := contains_eq session.forest (session.table table) key
  simp only [Session.step, Short, present, has] at spec ⊢
  cases content : (atlas.chart table)[key]? with
  | none =>
      rw [content] at spec
      simp only [Option.map_none] at spec
      rw [spec]
      refine ⟨?_, rfl⟩
      rintro ⟨⟨⟩, _⟩
  | some pair =>
      obtain ⟨value, nested⟩ := pair
      cases nested with
      | none => exact absurd content (idle value)
      | some nested =>
          rw [content] at spec
          simp only [Option.map_some, translate] at spec
          rw [spec]
          simp only [mirrors.hand_nested content]
          refine ⟨?_, trivial⟩
          rintro ⟨_, ⟨⟩⟩

end Idle

/-- One request: where there are slots enough on the side with less to reuse, there are on the other
one, and the sessions stay side by side. -/
theorem Twins.step {lean fat : Session} {atlas : Atlas} (twins : Twins lean fat atlas)
    (request : Request) (roomy : ¬ fat.Short request) :
    ¬ lean.Short request ∧
      Twins (lean.step request).2 (fat.step request).2 (atlas.step request).2 := by
  have both : ¬ lean.Short request ∧ Alongside (lean.step request).2 (fat.step request).2 := by
    cases request with
    | put table key value => exact twins.step_put table key value roomy
    | get table key => exact ⟨nofun, twins.beside⟩
    | contains table key => exact ⟨nofun, twins.beside⟩
    | erase table key => exact ⟨nofun, twins.step_erase table key⟩
    | nested table key =>
        refine ⟨nofun, ?_⟩
        rw [twins.mirrors.step_nested_eq, twins.mirrorsFat.step_nested_eq]
        exact twins.beside
    | createNested table key =>
        by_cases lacks : ∃ value, (atlas.chart table)[key]? = some (value, none)
        · obtain ⟨value, lacks⟩ := lacks
          exact twins.nest lacks roomy
        · have idle : ∀ value, (atlas.chart table)[key]? ≠ some (value, none) :=
            fun value same => lacks ⟨value, same⟩
          obtain ⟨short, same⟩ := twins.mirrors.createNested_idle idle
          rw [same, (twins.mirrorsFat.createNested_idle idle).2]
          exact ⟨short, twins.beside⟩
  obtain ⟨short, beside⟩ := both
  exact ⟨short, (twins.mirrors.step request short).2, (twins.mirrorsFat.step request roomy).2, beside⟩

end Session

end Forest

end Lexicon

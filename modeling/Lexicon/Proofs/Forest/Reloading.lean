/-
Module: Lexicon.Proofs.Forest.Reloading
Layer: Proofs
Purpose: Storing a forest and reading it back, at any points of its use, always succeeds and is not
  noticed by anyone; it only costs slots.
Imports: Lexicon.Proofs.Forest.Storability, Lexicon.Proofs.Forest.Twins
Trusted boundary: none
Main exports: Forest.Session.Event, Forest.Session.resume, Forest.Session.storable_resume,
  Forest.Session.Twins.resume, Forest.Session.resume_unnoticed
-/
import Lexicon.Proofs.Forest.Storability
import Lexicon.Proofs.Forest.Twins

namespace Lexicon

namespace Forest

/-- The stored form of a forest between other bytes, and the place where it begins. -/
def amid (forest : Forest) (before after : List UInt8) : Cursor :=
  { bytes := (before ++ forest.encode ++ after).toByteArray, position := before.length }

theorem shows_amid (forest : Forest) (before after : List UInt8) :
    (forest.amid before after).Shows (forest.encode ++ after) := by
  refine ⟨?_, ?_⟩
  · show before.length ≤ (before ++ forest.encode ++ after).toByteArray.size
    rw [List.size_toByteArray, List.length_append, List.length_append]
    omega
  · rw [Cursor.rest, amid, List.toList_data_toByteArray, List.append_assoc, List.drop_left]

/-- A forest is read back from between other bytes, and just its own bytes are taken. -/
theorem Storable.read_amid {forest : Forest} {tables : Finset Table}
    (storable : Storable forest tables) (before after : List UInt8) :
    read (forest.amid before after) =
      .ok (forest.reloaded,
        { forest.amid before after with position := before.length + (12 + forest.usedBytes) }) := by
  have taken := storable.takes_read _ _ (shows_amid forest before after)
  rw [length_encode] at taken
  exact taken

/-- A forest that is read back lists the same entries. -/
theorem Storable.entries_reloaded {forest : Forest} {tables : Finset Table} {table : Table}
    (storable : Storable forest tables) (member : table ∈ tables) :
    forest.reloaded.entries table = forest.entries table := by
  have sound : Sound forest.reloaded tables := storable.sound.copy rfl
  apply Label.eq_of_ordered (·.key) (entries_ordered sound member)
    (entries_ordered storable.sound member)
  intro entry
  rw [mem_entries sound member, mem_entries storable.sound member,
    @under?_copy forest forest.reloaded rfl]

namespace Session

/-! ### What happens to a session -/

/-- What happens to a session: it answers a request, or its forest is stored between other bytes
and read back from there. -/
inductive Event where
  | request (request : Request)
  | reload (before after : List UInt8)

/-- Stores the forest of a session between other bytes and reads it back.  The tables that were
handed out keep their names. -/
def reload (session : Session) (before after : List UInt8) : Except Error Session :=
  match Forest.read (session.forest.amid before after) with
  | .ok (forest, _) => .ok ⟨forest, session.handles⟩
  | .error error => .error error

/-- Goes on with a session through some events. -/
def resume (session : Session) : List Event → Except Error (List Reply × Session)
  | [] => .ok ([], session)
  | .request request :: events => do
      let (reply, session) := session.step request
      let (replies, session) ← resume session events
      .ok (reply :: replies, session)
  | .reload before after :: events => do
      let session ← session.reload before after
      resume session events

/-- The requests among some events. -/
def requests : List Event → List Request
  | [] => []
  | .request request :: events => request :: requests events
  | .reload _ _ :: events => requests events

/-- There are slots enough for all requests among some events. -/
def Supplied (session : Session) : List Event → Prop
  | [] => True
  | .request request :: events => ¬ session.Short request ∧ Supplied (session.step request).2 events
  | .reload before after :: events =>
      ∀ next, session.reload before after = .ok next → Supplied next events

theorem resume_request {session : Session} {request : Request} {events : List Event}
    {replies : List Reply} {last : Session}
    (rest : (session.step request).2.resume events = .ok (replies, last)) :
    session.resume (.request request :: events) =
      .ok ((session.step request).1 :: replies, last) := by
  rw [resume]
  dsimp only
  rw [rest]
  rfl

theorem resume_reload {session next : Session} {before after : List UInt8} {events : List Event}
    (reloaded : session.reload before after = .ok next) :
    session.resume (.reload before after :: events) = next.resume events := by
  rw [resume, reloaded]
  rfl

/-- The entries of a table, with the numbers of the tables nested below them. -/
def listing (session : Session) (table : Nat) : List (Int32 × Nat × Option Nat) :=
  (session.forest.entries (session.table table)).map fun entry =>
    (entry.key, entry.value, entry.nested.map session.handles.idxOf)

/-! ### Every reload succeeds -/

section Storing

variable {session : Session}

theorem hand_of_mem {forest : Forest} {handles : List Table} {table : Table}
    (known : table ∈ handles) : (hand forest handles (some table)).2 = ⟨forest, handles⟩ := by
  rw [hand, if_pos known]

/-- Tables that were handed out are nested below each other, so none of them is handed out anew. -/
theorem step_nested_eq {loose : Prop}
    (sound : Coherent loose session.forest session.handles.toFinset) (table : Nat) (key : Int32) :
    (session.step (.nested table key)).2 = session := by
  simp only [Session.step]
  cases has : session.forest.nested? (session.table table) key with
  | none => rfl
  | some nested =>
      exact hand_of_mem (List.mem_toFinset.mp (sound.nested_mem (table_mem sound.rooted table) has))

/-- Whatever is asked of a session, its forest can be stored afterwards, and is no smaller. -/
theorem storable_step (storable : Storable session.forest session.handles.toFinset)
    (request : Request) :
    Storable (session.step request).2.forest (session.step request).2.handles.toFinset := by
  have member := table_mem storable.sound.rooted
  cases request with
  | put table key value => exact storable.put (member table) key value
  | get => exact storable
  | contains => exact storable
  | erase table key => exact storable.erase (member table) key
  | nested table key =>
      rw [step_nested_eq storable.sound]
      exact storable
  | createNested table key =>
      rw [step_createNested_eq, forest_hand, toFinset_hand]
      exact storable.createNested (member table) key

theorem reload_eq (storable : Storable session.forest session.handles.toFinset)
    (before after : List UInt8) :
    session.reload before after = .ok ⟨session.forest.reloaded, session.handles⟩ := by
  rw [reload, storable.read_amid]

/-- A session goes through all events, and its forest can be stored after them. -/
theorem storable_resume (events : List Event) :
    ∀ {session : Session}, Storable session.forest session.handles.toFinset →
      ∃ replies last, session.resume events = .ok (replies, last) ∧
        Storable last.forest last.handles.toFinset := by
  induction events with
  | nil => exact fun storable => ⟨_, _, rfl, storable⟩
  | cons event events ih =>
      intro session storable
      cases event with
      | request request =>
          obtain ⟨replies, last, done, stored⟩ := ih (storable_step storable request)
          exact ⟨_, _, resume_request done, stored⟩
      | reload before after =>
          let reloaded : Session := ⟨session.forest.reloaded, session.handles⟩
          have kept : Storable reloaded.forest reloaded.handles.toFinset := storable.copy rfl rfl
          obtain ⟨replies, last, done, stored⟩ := ih kept
          exact ⟨_, _, (resume_reload (reload_eq storable before after)).trans done, stored⟩

end Storing

/-! ### No reload is noticed -/

/-- A session that reflects an atlas lists the content of its tables. -/
theorem Reflects.mem_listing {loose : Prop} {session : Session} {atlas : Atlas}
    (reflects : Reflects loose session atlas) (table : Nat) (item : Int32 × Nat × Option Nat) :
    item ∈ session.listing table ↔ (atlas.chart table)[item.1]? = some item.2 := by
  obtain ⟨key, value, nested⟩ := item
  have numbered : ∀ {content : Nat × Option Nat}, (atlas.chart table)[key]? = some content →
      (translate session.handles content).2.map session.handles.idxOf = content.2 := by
    rintro ⟨value, nested⟩ has
    cases nested with
    | none => rfl
    | some number =>
        exact congrArg some (reflects.idxOf_getD (reflects.known (reflects.resolve_lt table) has))
  have here := reflects.here table key
  rw [listing, List.mem_map]
  constructor
  · rintro ⟨entry, among, same⟩
    cases same
    rw [(mem_entries reflects.sound (reflects.member table) entry).mp among] at here
    obtain ⟨content, has, told⟩ := Option.map_eq_some_iff.mp here.symm
    have known := numbered has
    rw [told] at known
    have value : content.1 = entry.value := congrArg Prod.fst told
    rw [has, ← value]
    exact congrArg some (Prod.ext rfl known.symm)
  · intro has
    rw [has, Option.map_some] at here
    refine ⟨⟨key, value, (translate session.handles (value, nested)).2⟩,
      (mem_entries reflects.sound (reflects.member table) _).mpr here, ?_⟩
    simp only [numbered has]

/-- The content of a table is listed in the order of the keys. -/
theorem Reflects.listing_ordered {loose : Prop} {session : Session} {atlas : Atlas}
    (reflects : Reflects loose session atlas) (table : Nat) :
    (session.listing table).Pairwise fun first second => Label.Before first.1 second.1 :=
  List.pairwise_map.mpr (entries_ordered reflects.sound (reflects.member table))

/-- What mirrors the same atlas lists the same. -/
theorem Mirrors.listing_eq {session other : Session} {atlas : Atlas}
    (mirrors : Mirrors session atlas) (mirrorsOther : Mirrors other atlas) (table : Nat) :
    session.listing table = other.listing table := by
  apply Label.eq_of_ordered Prod.fst (mirrors.listing_ordered table)
    (mirrorsOther.listing_ordered table)
  intro item
  rw [mirrors.mem_listing, mirrorsOther.mem_listing]

theorem Mirrors.reloaded {session : Session} {atlas : Atlas} (mirrors : Mirrors session atlas) :
    Mirrors ⟨session.forest.reloaded, session.handles⟩ atlas :=
  ⟨⟨mirrors.sound.copy rfl, mirrors.top, mirrors.distinct, mirrors.length, mirrors.known,
    fun inside key => (under?_copy rfl _ key).trans (mirrors.entry inside key)⟩, mirrors.count⟩

/-- A reload leaves less to reuse on the side where there was less already. -/
theorem Twins.reloaded {lean fat : Session} {atlas : Atlas} (twins : Twins lean fat atlas) :
    Twins lean ⟨fat.forest.reloaded, fat.handles⟩ atlas := by
  obtain ⟨tree, treeFat, laid, laidFat, alike⟩ := twins.beside.laid
  exact ⟨twins.mirrors, twins.mirrorsFat.reloaded, twins.beside.leaner.ofSlots, twins.beside.length,
    twins.beside.distinct, twins.beside.distinctFat, tree, treeFat, laid, laidFat.copy, alike⟩

/-- Where one session is reloaded at some points and the other one is not, both reply the same and
stay twins. -/
theorem Twins.resume (events : List Event) :
    ∀ {lean fat : Session} {atlas : Atlas}, Twins lean fat atlas →
      Storable fat.forest fat.handles.toFinset → fat.Supplied events →
        ∃ last, fat.resume events = .ok ((lean.run (requests events)).1, last) ∧
          Twins (lean.run (requests events)).2 last (atlas.run (requests events)).2 := by
  induction events with
  | nil => exact fun twins _ _ => ⟨_, rfl, twins⟩
  | cons event events ih =>
      intro lean fat atlas twins storable supplied
      cases event with
      | request request =>
          obtain ⟨roomy, rest⟩ := supplied
          obtain ⟨short, next⟩ := twins.step request roomy
          obtain ⟨last, done, further⟩ := ih next (storable_step storable request) rest
          -- Both reply what the atlas replies.
          have reply : (fat.step request).1 = (lean.step request).1 :=
            (twins.mirrorsFat.step request roomy).1.trans (twins.mirrors.step request short).1.symm
          have all := resume_request done
          rw [reply] at all
          exact ⟨last, all, further⟩
      | reload before after =>
          have reloaded := reload_eq storable before after
          obtain ⟨last, done, further⟩ :=
            ih twins.reloaded (storable.copy rfl rfl) (supplied _ reloaded)
          exact ⟨last, (resume_reload reloaded).trans done, further⟩

/-- A session that has thirty-two slots left for each request is supplied. -/
theorem Mirrors.supplied (events : List Event) :
    ∀ {session : Session} {atlas : Atlas}, Mirrors session atlas →
      Storable session.forest session.handles.toFinset →
        session.forest.slotCount + 32 * (requests events).length ≤ maxSlots →
          session.Supplied events := by
  induction events with
  | nil => exact fun _ _ _ => trivial
  | cons event events ih =>
      intro session atlas mirrors storable enough
      cases event with
      | request request =>
          rw [requests, List.length_cons] at enough
          have growth := session.slotCount_step_le request
          have served : ¬ session.Short request := by
            intro refused
            have scant := mirrors.scant_of_short refused
            omega
          exact ⟨served, ih (mirrors.step request served).2 (storable_step storable request)
            (by omega)⟩
      | reload before after =>
          intro next reloaded
          rw [reload_eq storable] at reloaded
          cases reloaded
          exact ih mirrors.reloaded (storable.copy rfl rfl) enough

/-- Also with reloads, slots can only run out after more than sixty-seven million requests. -/
theorem supplied_start (events : List Event) (few : (requests events).length < 67108864) :
    start.Supplied events := by
  apply mirrors_start.supplied events storable_new
  have slots : start.forest.slotCount = 1 := rfl
  have limit : maxSlots = 2147483647 := rfl
  omega

/-- A new forest may be stored and read back at any points of its use: each time it is accepted, from
just the bytes that were stored, and every table that was ever handed out lists the same entries
then.  As long as slots are not exhausted, nobody can tell: all replies are those of a session that is
never reloaded, as are the number of entries and what every table lists.  Only slots may be lost. -/
theorem resume_unnoticed (events : List Event) :
    ∃ replies last, start.resume events = .ok (replies, last) ∧
      (∀ before after,
        Forest.read (last.forest.amid before after) =
          .ok (last.forest.reloaded,
            { last.forest.amid before after with
              position := before.length + (12 + last.forest.usedBytes) })) ∧
      (∀ table ∈ last.handles,
        last.forest.reloaded.entries table = last.forest.entries table) ∧
      (start.Supplied events →
        replies = (start.run (requests events)).1 ∧
          last.forest.count = (start.run (requests events)).2.forest.count ∧
          last.handles.length = (start.run (requests events)).2.handles.length ∧
          (∀ table, last.listing table = (start.run (requests events)).2.listing table) ∧
          (start.run (requests events)).2.forest.usedBytes ≤ last.forest.usedBytes) := by
  have storable : Storable start.forest start.handles.toFinset := storable_new
  obtain ⟨replies, last, done, stored⟩ := storable_resume events storable
  refine ⟨replies, last, done, stored.read_amid,
    fun table handed => stored.entries_reloaded (List.mem_toFinset.mpr handed), ?_⟩
  intro supplied
  have twins : Twins start start Atlas.start :=
    ⟨mirrors_start, mirrors_start, .refl mirrors_start.sound mirrors_start.distinct⟩
  obtain ⟨other, again, twinsLast⟩ := Twins.resume events twins storable supplied
  rw [done] at again
  cases again
  refine ⟨rfl, twinsLast.mirrorsFat.count.trans twinsLast.mirrors.count.symm,
    twinsLast.beside.length.symm, twinsLast.mirrorsFat.listing_eq twinsLast.mirrors, ?_⟩
  exact Nat.mul_le_mul_right _ twinsLast.beside.leaner.size

/-- A table is used after the key that led to it was erased, with reloads before and after that. -/
def reloadingOrphan : List Event :=
  [.request (.put 0 1 5), .request (.createNested 0 1), .request (.put 1 7 9), .reload [] [],
    .request (.erase 0 1), .reload [1, 2] [3], .request (.put 0 1 6), .request (.nested 0 1),
    .request (.get 1 7)]

/-- A table outlives the key that led to it also where the forest is reloaded. -/
theorem resume_unnoticed_orphan :
    start.Supplied reloadingOrphan ∧ ∃ last, start.resume reloadingOrphan =
      .ok ([.stored (.ok ()), .table (some 1), .stored (.ok ()), .holds true, .stored (.ok ()),
        .table none, .value (some 9)], last) := by
  have supplied : start.Supplied reloadingOrphan := supplied_start reloadingOrphan (by decide)
  obtain ⟨replies, last, done, _, _, told⟩ := resume_unnoticed reloadingOrphan
  refine ⟨supplied, last, ?_⟩
  rw [done, (told supplied).1]
  rfl

end Session

end Forest

end Lexicon

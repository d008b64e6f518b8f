/-
Module: Lexicon.Proofs.Dictionary.Filing
Layer: Proofs
Purpose: What filing a word, and filing a bigram, changes in the forests of a dictionary.
Imports: Lexicon.Proofs.Dictionary.Representation, Lexicon.Proofs.Mutation
Trusted boundary: none
Main exports: Vocabulary.filing_append, Dictionary.entering, Dictionary.entering_eq,
  Dictionary.filedAlong, Dictionary.fileWord_spec, Dictionary.fileBigram_spec
-/
import Lexicon.Proofs.Dictionary.Representation
import Lexicon.Proofs.Mutation

namespace Lexicon

open Forest

/-! ### One word more -/

namespace Vocabulary

variable {words : List Word} {word stem : Word}

theorem exists_mem_append {condition : Word → Prop} :
    (∃ other ∈ words ++ [word], condition other) ↔
      (∃ other ∈ words, condition other) ∨ condition word := by
  simp [or_and_right, exists_or]

theorem placeIn_append_other (differ : stem ≠ word) :
    placeIn (words ++ [word]) stem = placeIn words stem := by
  by_cases member : stem ∈ words
  · obtain ⟨token, place⟩ := Option.isSome_iff_exists.mp (isSome_placeIn.mpr member)
    rw [placeIn_append place, place]
  · rw [placeIn_append_of_notMem member, placeIn, if_neg (Ne.symm differ),
      placeIn_eq_none.mpr member]
    rfl

theorem getD_filing_nested :
    ((filing words stem).map (·.2)).getD false =
      decide (∃ other ∈ words, stem <+: other ∧ stem ≠ other) := by
  rw [filing]
  split
  next => rfl
  next none =>
    symm
    rw [Option.map_none, Option.getD_none, decide_eq_false_iff_not]
    rintro ⟨other, among, begins, _⟩
    exact none ⟨other, among, begins⟩

theorem getD_filing_value :
    ((filing words stem).map (·.1)).getD 0 = ((placeIn words stem).map (· + 1)).getD 0 := by
  rw [filing]
  split
  next => rfl
  next none =>
    have missing : stem ∉ words := fun member => none ⟨stem, member, List.prefix_refl stem⟩
    rw [placeIn_eq_none.mpr missing]
    rfl

/-- What is filed for all beginnings when a new word is filed behind the others. -/
theorem filing_append (new : word ∉ words) :
    filing (words ++ [word]) stem =
      if stem = word then some (total words + 1, ((filing words stem).map (·.2)).getD false)
      else if stem <+: word then some (((filing words stem).map (·.1)).getD 0, true)
      else filing words stem := by
  rw [getD_filing_nested, getD_filing_value]
  by_cases same : stem = word
  · subst same
    have place : placeIn (words ++ [stem]) stem = some (total words) := by
      rw [placeIn_append_of_notMem new, placeIn, if_pos rfl]
      rfl
    rw [if_pos rfl, filing, if_pos (exists_mem_append.mpr (Or.inr (List.prefix_refl stem))), place]
    simp only [exists_mem_append, List.prefix_refl, ne_eq, not_true, and_false, or_false]
    rfl
  · rw [if_neg same, filing, placeIn_append_other same]
    by_cases begins : stem <+: word
    · rw [if_pos begins, if_pos (exists_mem_append.mpr (Or.inr begins)),
        decide_eq_true (exists_mem_append.mpr (Or.inr ⟨begins, same⟩))]
    · simp only [exists_mem_append, begins, false_and, or_false, if_false]
      rw [filing]

end Vocabulary

namespace Dictionary

/-! ### Entering a table -/

/-- Goes on in the table below a key, which is opened if it is not there. -/
def entering {α : Type} (table : Table) (key : Int32) (rest : Table → Mutation Forest α) :
    Mutation Forest α := do
  let forest ← get
  if !forest.contains table key then
    Mutation.ofChange fun forest => forest.put table key 0
  let nested ← Mutation.ofChange fun forest =>
    match forest.createNested? table key with
    | (some nested, forest) => (.ok nested, forest)
    | (none, forest) => (.error .forestFull, forest)
  rest nested

/-- The table nested below a key, created if there is none. -/
def nest (table : Table) (key : Int32) : Mutation Forest Table :=
  Mutation.ofChange fun forest =>
    match forest.createNested? table key with
    | (some nested, forest) => (.ok nested, forest)
    | (none, forest) => (.error .forestFull, forest)

/-- Entering stores a key that is not there, and then goes on in the table nested below it. -/
theorem entering_eq {α : Type} (key : Int32) (rest : Table → Mutation Forest α) :
    (entering table key rest).apply forest =
      if forest.contains table key then (nest table key >>= rest).apply forest
      else (Mutation.ofChange (fun forest : Forest => forest.put table key 0) >>= fun _ =>
        nest table key >>= rest).apply forest := by
  rw [entering, Mutation.apply_bind, Mutation.apply_get]
  dsimp only
  cases forest.contains table key with
  | false => rfl
  | true => rfl

/-- A word is filed by entering the table below its first code point, unless that is its last one. -/
theorem fileWord_cons (terminal : Nat) (table : Table) (codePoint next : Int32) (rest : Word) :
    fileWord terminal table (codePoint :: next :: rest) =
      entering table codePoint fun nested => fileWord terminal nested (next :: rest) := rfl

/-- A bigram is filed in the table below the first of its words. -/
theorem fileBigram_eq (source target record : Nat) :
    fileBigram source target record = entering Forest.root (wordKey source) fun table =>
      Mutation.ofChange fun followers => followers.put table (wordKey target) record := rfl

/-- A key that is not there is stored where there is room, and nothing else is done. -/
theorem apply_opening {forest : Forest} (lawful : Lawful forest) {path : List Int32} {table : Table}
    (along : descend forest root path = some table) (key : Int32)
    (room : forest.slotCount + 32 ≤ maxSlots) :
    ∃ middle,
      (if !forest.contains table key then
        Mutation.ofChange fun forest => forest.put table key 0
        else pure () : Mutation Forest Unit).apply forest = (.ok (), middle) ∧
      Lawful middle ∧
      middle.slotCount ≤ forest.slotCount +
        (if ((forest.at? path key).map (·.2)).getD false then 0 else 32) ∧
      descend middle root path = some table ∧
      middle.at? path key =
        some (((forest.at? path key).map (·.1)).getD 0,
          ((forest.at? path key).map (·.2)).getD false) ∧
      ∀ other name, ¬ (other = path ∧ name = key) →
        middle.at? other name = forest.at? other name := by
  rw [Lawful.contains_at along]
  cases has : forest.at? path key with
  | none =>
      obtain ⟨middle, outcome, growth, refiled, paths⟩ :=
        lawful.put_at along key (Nat.zero_le _) room
      have here := refiled.filed path key
      rw [if_pos ⟨rfl, rfl⟩, has] at here
      rw [has] at growth
      refine ⟨middle, outcome, refiled.lawful, growth, by rw [paths, along], here, ?_⟩
      intro other name elsewhere
      rw [refiled.filed, if_neg elsewhere]
  | some content =>
      exact ⟨forest, rfl, lawful, Nat.le_add_right _ _, along, has, fun _ _ _ => rfl⟩

/-- Entering the table below a key succeeds where there is room.  Afterwards the key leads further,
and keeps its value or has the value zero. -/
theorem apply_entering {forest : Forest} (lawful : Lawful forest) {path : List Int32} {table : Table}
    (along : descend forest root path = some table) (key : Int32)
    (room : forest.slotCount + 33 ≤ maxSlots) :
    ∃ nested wide, Lawful wide ∧
      wide.slotCount ≤ forest.slotCount +
        (if ((forest.at? path key).map (·.2)).getD false then 0 else 33) ∧
      descend wide root (path ++ [key]) = some nested ∧
      (∀ other name, wide.at? other name =
        if other = path ∧ name = key then some (((forest.at? path key).map (·.1)).getD 0, true)
        else forest.at? other name) ∧
      ∀ {α : Type} (rest : Table → Mutation Forest α),
        (entering table key rest).apply forest = (rest nested).apply wide := by
  obtain ⟨middle, opened, lawfulMiddle, growth, alongMiddle, has, kept⟩ :=
    apply_opening lawful along key (by omega)
  obtain ⟨nested, wide, created, growthWide, refiled, alongWide, _⟩ :=
    lawfulMiddle.create_at alongMiddle has (by split at growth <;> omega)
  refine ⟨nested, wide, refiled.lawful, ?_, alongWide, ?_, ?_⟩
  · generalize ((forest.at? path key).map (·.2)).getD false = known at growth growthWide ⊢
    cases known with
    | false => simp only [Bool.false_eq_true, if_false] at growth growthWide ⊢; omega
    | true => simp only [if_true] at growth growthWide ⊢; omega
  · intro other name
    rw [refiled.filed]
    by_cases here : other = path ∧ name = key
    · rw [if_pos here, if_pos here]
    · rw [if_neg here, if_neg here, kept other name here]
  · intro α rest
    rw [entering, Mutation.apply_bind, Mutation.apply_get]
    dsimp only
    rw [Mutation.apply_when_ok opened, Mutation.apply_bind, Mutation.apply_ofChange, created]

/-! ### Filing a word -/

/-- A longer path below the first key of a word is a longer path below that key. -/
theorem prefix_step {path other : List Int32} {codePoint name : Int32} {rest : Word} :
    (path <+: other ∧ other ++ [name] <+: path ++ codePoint :: rest) ↔
      (other = path ∧ name = codePoint) ∨
        (path ++ [codePoint] <+: other ∧ other ++ [name] <+: path ++ codePoint :: rest) := by
  constructor
  · rintro ⟨⟨more, rfl⟩, begins⟩
    cases more with
    | nil =>
        left
        rw [List.append_nil, List.prefix_append_right_inj, List.cons_prefix_cons] at begins
        exact ⟨List.append_nil path, begins.1⟩
    | cons first more =>
        right
        refine ⟨?_, begins⟩
        rw [List.append_assoc, List.prefix_append_right_inj, List.cons_append,
          List.cons_prefix_cons] at begins
        rw [begins.1]
        exact ⟨more, by simp⟩
  · rintro (⟨rfl, rfl⟩ | ⟨⟨more, rfl⟩, begins⟩)
    · exact ⟨List.prefix_refl other, ⟨rest, by simp⟩⟩
    · exact ⟨⟨[codePoint] ++ more, by simp⟩, begins⟩

/-- Two places are the same if their paths and keys are. -/
theorem append_singleton_eq_iff {path other : List Int32} {key name : Int32} :
    other ++ [name] = path ++ [key] ↔ other = path ∧ name = key := by
  constructor
  · intro same
    have parts := List.append_inj' same rfl
    exact ⟨parts.1, List.singleton_inj.mp parts.2⟩
  · rintro ⟨rfl, rfl⟩
    rfl

/-- Of the places along a path with one key left, only its end is at the last table or below. -/
theorem eq_of_begins_of_begins {path other : List Int32} {key name : Int32} (below : path <+: other)
    (begins : other ++ [name] <+: path ++ [key]) : other ++ [name] = path ++ [key] := by
  have least := below.length_le
  apply begins.eq_of_length
  have most := begins.length_le
  simp only [List.length_append, List.length_singleton] at most ⊢
  omega

/-- What becomes of the content of a place when a word is filed below a path: the end of the word has
its token, and the places on the way to it lead further. -/
def filedAlong (terminal : Nat) (path : List Int32) (word : Word) (other : List Int32)
    (name : Int32) (content : Option (Nat × Bool)) : Option (Nat × Bool) :=
  if other ++ [name] = path ++ word then some (terminal + 1, (content.map (·.2)).getD false)
  else if path <+: other ∧ other ++ [name] <+: path ++ word then
    some ((content.map (·.1)).getD 0, true)
  else content

/-- A word of one code point has its end in the table itself, and nothing on the way to it. -/
theorem filedAlong_singleton (terminal : Nat) (path : List Int32) (codePoint : Int32)
    (other : List Int32) (name : Int32) (content : Option (Nat × Bool)) :
    filedAlong terminal path [codePoint] other name content =
      if other = path ∧ name = codePoint then
        some (terminal + 1, (content.map (·.2)).getD false)
      else content := by
  rw [filedAlong]
  simp only [append_singleton_eq_iff]
  by_cases here : other = path ∧ name = codePoint
  · rw [if_pos here, if_pos here]
  · rw [if_neg here, if_neg here, if_neg]
    rintro ⟨below, begins⟩
    exact here (append_singleton_eq_iff.mp (eq_of_begins_of_begins below begins))

/-- A longer word opens the table below its first code point, and the rest is filed there. -/
theorem filedAlong_cons (terminal : Nat) (path : List Int32) (codePoint next : Int32) (rest : Word)
    (other : List Int32) (name : Int32) (content : Option (Nat × Bool)) :
    filedAlong terminal path (codePoint :: next :: rest) other name content =
      filedAlong terminal (path ++ [codePoint]) (next :: rest) other name
        (if other = path ∧ name = codePoint then some ((content.map (·.1)).getD 0, true)
        else content) := by
  have whole : path ++ [codePoint] ++ next :: rest = path ++ codePoint :: next :: rest := by simp
  by_cases here : other = path ∧ name = codePoint
  · -- The entry of the first key itself: it is no end of the word, and none is below it.
    rw [if_pos here, filedAlong, filedAlong, whole]
    obtain ⟨rfl, rfl⟩ := here
    have apart : other ++ [name] ≠ other ++ name :: next :: rest := by simp
    have above : ¬ other ++ [name] <+: other := fun below => by simpa using below.length_le
    rw [if_neg apart, if_neg apart, if_pos (prefix_step.mpr (Or.inl ⟨rfl, rfl⟩)),
      if_neg (fun both => above both.1)]
  · have same : (path <+: other ∧ other ++ [name] <+: path ++ codePoint :: next :: rest) ↔
        (path ++ [codePoint] <+: other ∧
          other ++ [name] <+: path ++ codePoint :: next :: rest) := by
      rw [prefix_step]
      exact or_iff_right here
    rw [if_neg here, filedAlong, filedAlong, whole]
    simp only [same]

/-- Filing a word succeeds where there is room.  Afterwards the word leads to its token, and its
beginnings lead further; whatever else they lead to stays. -/
theorem fileWord_spec {terminal : Nat} (fits : terminal + 1 ≤ maxValue) (word : Word) :
    ∀ {path : List Int32} {table : Table} {forest : Forest}, word ≠ [] → Lawful forest →
      descend forest root path = some table →
      forest.slotCount + 33 * word.length ≤ maxSlots →
      ∃ after, (fileWord terminal table word).apply forest = (.ok (), after) ∧ Lawful after ∧
        after.slotCount ≤ forest.slotCount + 33 * word.length ∧
        ∀ other name,
          after.at? other name = filedAlong terminal path word other name (forest.at? other name) := by
  induction word with
  | nil =>
      intro path table forest some
      exact absurd rfl some
  | cons codePoint rest ih =>
      intro path table forest _ lawful along room
      cases rest with
      | nil =>
          obtain ⟨after, outcome, growth, refiled, _⟩ :=
            lawful.put_at along codePoint fits (by simpa using Nat.le_trans (by simp) room)
          refine ⟨after, outcome, refiled.lawful, ?_, ?_⟩
          · simp only [List.length_singleton]
            split at growth <;> omega
          · intro other name
            rw [refiled.filed, filedAlong_singleton]
            by_cases here : other = path ∧ name = codePoint
            · rw [if_pos here, if_pos here, here.1, here.2]
            · rw [if_neg here, if_neg here]
      | cons next rest =>
          simp only [List.length_cons] at room ih
          obtain ⟨nested, wide, lawfulWide, growthWide, alongWide, filedWide, goesOn⟩ :=
            apply_entering lawful along codePoint (by omega)
          have growthWide : wide.slotCount ≤ forest.slotCount + 33 := by
            split at growthWide <;> omega
          obtain ⟨after, done, lawfulAfter, growthAfter, filed⟩ :=
            ih (List.cons_ne_nil next rest) lawfulWide alongWide (by omega)
          have outcome : (fileWord terminal table (codePoint :: next :: rest)).apply forest =
              (.ok (), after) :=
            (goesOn fun nested => fileWord terminal nested (next :: rest)).trans done
          refine ⟨after, outcome, lawfulAfter, ?_, ?_⟩
          · simp only [List.length_cons]
            omega
          · intro other name
            rw [filed, filedWide, filedAlong_cons]
            by_cases here : other = path ∧ name = codePoint
            · rw [if_pos here, if_pos here, here.1, here.2]
            · rw [if_neg here, if_neg here]

/-! ### Filing a bigram -/

/-- Filing a bigram succeeds where there is room, and changes what is filed for its words alone. -/
theorem fileBigram_spec {forest : Forest} (lawful : Lawful forest) (source target : Nat)
    {record : Nat} (fits : record ≤ maxValue) (room : forest.slotCount + 65 ≤ maxSlots) :
    ∃ after, (fileBigram source target record).apply forest = (.ok (), after) ∧ Lawful after ∧
      after.slotCount ≤ forest.slotCount +
        (if (forest.at? [wordKey source] (wordKey target)).isSome then 0 else 65) ∧
      ∀ key name, after.at? [key] name =
        if key = wordKey source ∧ name = wordKey target then
          some (record, ((forest.at? [wordKey source] (wordKey target)).map (·.2)).getD false)
        else forest.at? [key] name := by
  have top : descend forest root [] = some root := rfl
  obtain ⟨nested, wide, lawfulWide, growthWide, alongWide, filedWide, goesOn⟩ :=
    apply_entering lawful top (wordKey source) (by omega)
  obtain ⟨after, stored, growth, refiled, _⟩ :=
    lawfulWide.put_at alongWide (wordKey target) fits (by split at growthWide <;> omega)
  have outcome : (fileBigram source target record).apply forest = (.ok (), after) :=
    (goesOn fun nested =>
      Mutation.ofChange fun followers => followers.put nested (wordKey target) record).trans stored
  have seen : ∀ key name, wide.at? [key] name = forest.at? [key] name := by
    intro key name
    rw [filedWide, if_neg (by simp)]
  refine ⟨after, outcome, refiled.lawful, ?_, ?_⟩
  · rw [List.nil_append, seen] at growth
    cases has : (forest.at? [wordKey source] (wordKey target)).isSome with
    | false =>
        simp only [Bool.false_eq_true, if_false]
        split at growthWide <;> split at growth <;> omega
    | true =>
        -- the table of the source is there, and in it the key of the target
        rw [if_pos (leads_of_at? has)] at growthWide
        rw [if_pos has] at growth
        exact growth.trans growthWide
  · intro key name
    rw [refiled.filed, List.nil_append, seen, seen]
    simp only [List.cons.injEq, and_true]

end Dictionary

end Lexicon

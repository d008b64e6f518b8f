/-
Module: Lexicon.Proofs.Dictionary.Catalogue
Layer: Proofs
Purpose: The completions of a word are all stored words that begin with it and may be suggested, each
  once, in an order that depends on the words alone.
Imports: Lexicon.Proofs.Dictionary.Canonical, Lexicon.Proofs.Dictionary.Indistinct,
  Lexicon.Proofs.Dictionary.Remnant, Mathlib.Data.List.Lex
Trusted boundary: none
Main exports: Word.Before, Vocabulary.Listing, Dictionary.Represents.completions_listing,
  Dictionary.standing, Dictionary.Genuine.completions_catalogue
-/
import Lexicon.Proofs.Dictionary.Canonical
import Lexicon.Proofs.Dictionary.Indistinct
import Lexicon.Proofs.Dictionary.Remnant
import Mathlib.Data.List.Lex

namespace Lexicon

open Vocabulary

/-! ### The order of words -/

namespace Label

instance : Std.Asymm Before := ⟨fun _ _ ahead => ahead.asymm⟩

end Label

namespace Word

/-- One word comes before another when the other extends it, or when the first code points in which
they differ come in the order of their labels, lowest bits first. -/
def Before (first second : Word) : Prop := List.Lex Label.Before first second

instance : Std.Asymm Before := inferInstanceAs (Std.Asymm (List.Lex Label.Before))

/-- A word comes before its extensions. -/
theorem Before.of_extension {path word : Word} {key : CodePoint} (longer : path ++ [key] <+: word) :
    Before path word := by
  obtain ⟨rest, rfl⟩ := longer
  have below : List.Lex Label.Before (path ++ []) (path ++ key :: rest) :=
    List.Lex.append_left _ .nil path
  rwa [List.append_nil, List.append_cons] at below

/-- Words that go on from the same beginning come in the order of the code points after it. -/
theorem Before.of_keys {path first second : Word} {key other : CodePoint}
    (ahead : Label.Before key other) (here : path ++ [key] <+: first)
    (there : path ++ [other] <+: second) : Before first second := by
  obtain ⟨rest, rfl⟩ := here
  obtain ⟨further, rfl⟩ := there
  rw [List.append_assoc, List.append_assoc]
  exact List.Lex.append_left _ (.rel ahead) path

/-- What begins with a word is the word itself or goes on after it. -/
theorem begins_iff {path word : Word} :
    path <+: word ↔ word = path ∨ ∃ key, path ++ [key] <+: word := by
  constructor
  · rintro ⟨rest, rfl⟩
    cases rest with
    | nil => exact .inl (List.append_nil path)
    | cons key rest => exact .inr ⟨key, rest, by rw [List.append_assoc]; rfl⟩
  · rintro (rfl | ⟨key, begins⟩)
    · exact List.prefix_refl word
    · exact (List.prefix_append path [key]).trans begins

end Word

/-! ### Listings -/

namespace Vocabulary

/-- A list has those words of a vocabulary that are meant and may be suggested, with their
probabilities and in the order of words. -/
structure Listing (vocabulary : Vocabulary) (meant : Word → Prop) (listed : List (Word × Int)) :
    Prop where
  ordered : listed.Pairwise fun first second => Word.Before first.1 second.1
  mem_iff : ∀ word probability, (word, probability) ∈ listed ↔ meant word ∧
    ∃ unigram, vocabulary.unigram? word = some unigram ∧ unigram.suggestible = true ∧
      unigram.probability = probability

namespace Listing

variable {vocabulary : Vocabulary} {meant other : Word → Prop} {listed more : List (Word × Int)}

/-- Which words are meant matters only for those that are there. -/
theorem congr (listing : Listing vocabulary meant listed)
    (same : ∀ word ∈ vocabulary.spelled, meant word ↔ other word) :
    Listing vocabulary other listed := by
  refine ⟨listing.ordered, fun word probability => (listing.mem_iff word probability).trans ?_⟩
  refine and_congr_left ?_
  rintro ⟨unigram, known, -⟩
  exact same word (isSome_unigram?.mp (by rw [known]; rfl))

/-- Nothing is listed where no word is meant. -/
theorem nil (none : ∀ word ∈ vocabulary.spelled, ¬ meant word) : Listing vocabulary meant [] := by
  have empty : Listing vocabulary (fun _ => False) [] := by
    refine ⟨.nil, fun word probability => ?_⟩
    rw [false_and, List.mem_nil_iff]
  exact empty.congr fun word among => ⟨False.elim, none word among⟩

/-- A listing behind another one. -/
theorem append (listing : Listing vocabulary meant listed)
    (behind : Listing vocabulary other more)
    (ahead : ∀ word further, meant word → other further → Word.Before word further) :
    Listing vocabulary (fun word => meant word ∨ other word) (listed ++ more) := by
  refine ⟨List.pairwise_append.mpr ⟨listing.ordered, behind.ordered, ?_⟩, ?_⟩
  · rintro ⟨word, probability⟩ here ⟨further, chance⟩ there
    exact ahead word further ((listing.mem_iff _ _).mp here).1 ((behind.mem_iff _ _).mp there).1
  · intro word probability
    rw [List.mem_append, listing.mem_iff, behind.mem_iff, or_and_right]

/-- A word by itself is listed if it may be suggested. -/
theorem single (vocabulary : Vocabulary) (word : Word) :
    Listing vocabulary (· = word)
      (match vocabulary.unigram? word with
        | none => []
        | some unigram =>
            if unigram.suggestible then [(word, unigram.probability)] else []) := by
  cases known : vocabulary.unigram? word with
  | none =>
      refine nil fun other among same => ?_
      rw [same, ← isSome_unigram?, known] at among
      exact Bool.false_ne_true among
  | some unigram =>
      refine ⟨?_, fun other probability => ?_⟩
      · dsimp only
        split
        next => exact List.pairwise_singleton _ _
        next => exact .nil
      · dsimp only
        constructor
        · intro among
          split at among
          next suggestible =>
            obtain ⟨rfl, rfl⟩ := Prod.mk.inj (List.mem_singleton.mp among)
            exact ⟨rfl, unigram, known, suggestible, rfl⟩
          next => exact (List.not_mem_nil among).elim
        · rintro ⟨rfl, again, same, suggestible, rfl⟩
          rw [known, Option.some.injEq] at same
          rw [same, if_pos suggestible]
          exact List.mem_singleton_self _

end Listing

end Vocabulary

namespace Dictionary

/-- Readings that list the same words after one another list them all. -/
theorem gather_listing (vocabulary : Vocabulary) {path : Word} {entries : List Entry}
    {answers : Entry → Reading (List (Word × Int))}
    (ordered : entries.Pairwise fun first second => Label.Before first.key second.key)
    (each : ∀ entry ∈ entries, ∃ listed, answers entry = pure listed ∧
      Listing vocabulary (path ++ [entry.key] <+: ·) listed) :
    ∃ listed, gather answers entries = pure listed ∧
      Listing vocabulary (fun word => ∃ entry ∈ entries, path ++ [entry.key] <+: word) listed := by
  induction entries with
  | nil => exact ⟨[], rfl, .nil fun word _ => by rintro ⟨_, among, _⟩; exact List.not_mem_nil among⟩
  | cons entry entries ih =>
      have later := List.pairwise_cons.mp ordered
      obtain ⟨here, answered, listing⟩ := each entry List.mem_cons_self
      obtain ⟨behind, gathered, others⟩ :=
        ih later.2 fun other among => each other (List.mem_cons_of_mem _ among)
      refine ⟨here ++ behind, by rw [gather, answered, gathered]; rfl, ?_⟩
      refine (listing.append others ?_).congr fun word _ => ?_
      · rintro word further begins ⟨other, among, goes⟩
        exact .of_keys (later.1 other among) begins goes
      · rw [List.exists_mem_cons_iff]

namespace Represents

variable {dictionary : Dictionary} {vocabulary : Vocabulary}

/-- What an entry stands for: the word that leads to it, and those that go on after it. -/
theorem entry_listing (represents : dictionary.Represents vocabulary) {word : Word}
    {value : Nat} {nested : Option Table} (remaining : Nat)
    (filed : filing vocabulary.spelled word = some (value, nested.isSome))
    (below : ∀ table, nested = some table →
      ∃ listed, dictionary.completionsFrom remaining table word = pure listed ∧
        Listing vocabulary (fun further => ∃ key, word ++ [key] <+: further) listed) :
    ∃ listed, (do
        let here ← dictionary.completion word value
        let below ←
          match nested with
          | none => pure []
          | some table => dictionary.completionsFrom remaining table word
        pure (here ++ below)) = pure listed ∧ Listing vocabulary (word <+: ·) listed := by
  have joined : ∀ {here more : List (Word × Int)}, Listing vocabulary (· = word) here →
      Listing vocabulary (fun further => ∃ key, word ++ [key] <+: further) more →
      Listing vocabulary (word <+: ·) (here ++ more) := by
    intro here more single longer
    refine (single.append longer ?_).congr fun further _ => Word.begins_iff.symm
    rintro _ further rfl ⟨key, begins⟩
    exact .of_extension begins
  have here := Listing.single vocabulary word
  cases nested with
  | some table =>
      obtain ⟨listed, answered, listing⟩ := below table rfl
      refine ⟨_, ?_, joined here listing⟩
      rw [represents.completion filed, pure_bind]
      dsimp only
      rw [answered]
      rfl
  | none =>
      refine ⟨_, ?_, joined here (.nil ?_)⟩
      · rw [represents.completion filed, pure_bind]
        rfl
      · rintro further among ⟨key, begins⟩
        -- a word that goes on would have a table nested here
        have longer : ∃ other ∈ vocabulary.spelled, word <+: other ∧ word ≠ other := by
          refine ⟨further, among, (List.prefix_append word [key]).trans begins, ?_⟩
          rintro rfl
          have long := begins.length_le
          rw [List.length_append, List.length_singleton] at long
          omega
        have nested := @getD_filing_nested vocabulary.spelled word
        rw [filed, decide_eq_true longer] at nested
        cases nested

/-- Below a path are the words that go on after it, if enough code points may follow. -/
theorem completionsFrom_listing (represents : dictionary.Represents vocabulary) (remaining : Nat) :
    ∀ {path : Word} {table : Table},
      descend dictionary.content.words Forest.root path = some table →
      maxWordLength ≤ remaining + path.length →
        ∃ listed, dictionary.completionsFrom remaining table path = pure listed ∧
          Listing vocabulary (fun word => ∃ key, path ++ [key] <+: word) listed := by
  induction remaining with
  | zero =>
      intro path table _ enough
      refine ⟨[], rfl, .nil ?_⟩
      rintro word among ⟨key, begins⟩
      -- a longer word could not have been stored
      have short := (represents.content.storable_word among).2
      have long := begins.length_le
      rw [List.length_append, List.length_singleton] at long
      omega
  | succ remaining ih =>
      intro path table along enough
      obtain ⟨tables, sound⟩ := represents.content.words
      have member := sound.descend_mem along
      rw [completionsFrom]
      obtain ⟨listed, gathered, listing⟩ := gather_listing vocabulary
        (Forest.entries_ordered sound member) fun entry among => by
          obtain ⟨filed, below⟩ := represents.entry_spec along among
          refine represents.entry_listing remaining filed fun nested inside => ?_
          refine ih (below.trans inside) ?_
          rw [List.length_append, List.length_singleton]
          omega
      refine ⟨listed, gathered, listing.congr fun word among => ?_⟩
      constructor
      · rintro ⟨entry, _, begins⟩
        exact ⟨entry.key, begins⟩
      · rintro ⟨key, begins⟩
        have here := represents.content.filed path key
        rw [Forest.Sound.at?_of_descend along, filing, if_pos ⟨word, among, begins⟩,
          Option.map_eq_some_iff] at here
        obtain ⟨content, under, -⟩ := here
        exact ⟨⟨key, content.1, content.2⟩, (Forest.mem_entries sound member _).mpr under, begins⟩

/-- The completions of a word are the words that begin with it. -/
theorem completions_listing (represents : dictionary.Represents vocabulary) (stem : Word) :
    ∃ listed, dictionary.completions stem = pure listed ∧
      Listing vocabulary (stem <+: ·) listed := by
  induction stem using List.reverseRecOn with
  | nil =>
      obtain ⟨listed, answered, listing⟩ :=
        represents.completionsFrom_listing maxWordLength
          (show descend dictionary.content.words Forest.root [] = some Forest.root from rfl)
          (Nat.le_add_right _ _)
      refine ⟨listed, answered, listing.congr fun word among => ?_⟩
      -- Every word begins with the empty stem.
      rw [Word.begins_iff, or_iff_right (represents.content.storable_word among).1]
  | append_singleton path key _ =>
      rw [Dictionary.completions]
      simp only [List.getLast?_concat, List.dropLast_concat]
      have filed := represents.content.filed path key
      -- where nothing is filed for the stem, no word begins with it
      have absent : filing vocabulary.spelled (path ++ [key]) = none →
          Listing vocabulary (path ++ [key] <+: ·) [] := by
        intro none
        refine .nil fun word among begins => ?_
        rw [filing, if_pos ⟨word, among, begins⟩] at none
        cases none
      cases along : descend dictionary.content.words Forest.root path with
      | none =>
          rw [Forest.at?, along] at filed
          exact ⟨[], rfl, absent filed.symm⟩
      | some table =>
          dsimp only
          rw [Forest.Sound.at?_of_descend along] at filed
          rw [Forest.get?_eq]
          cases under : dictionary.content.words.under? table key with
          | none =>
              rw [under] at filed
              exact ⟨[], rfl, absent filed.symm⟩
          | some content =>
              rw [under] at filed
              have nested : dictionary.content.words.nested? table key = content.2 := by
                rw [Forest.nested?_eq, under]
                rfl
              have below : descend dictionary.content.words Forest.root (path ++ [key]) =
                  content.2 := by
                rw [Forest.descend_below along, nested]
              rw [nested]
              refine represents.entry_listing _ filed.symm fun table inside => ?_
              refine represents.completionsFrom_listing _ (below.trans inside) ?_
              omega

end Represents

/-! ### What completions depend on -/

/-- What completions show of a word, if it is stored: its flags and its probability. -/
def standing (dictionary : Dictionary) (word : Word) : Option (Bool × Bool × Int) :=
  (dictionary.property word).value.map fun property =>
    (property.unigram.notAWord, property.unigram.blacklisted, property.unigram.probability)

/-- A list has each stored word that begins with a stem and is neither flagged as no word nor
blacklisted, with the probability that it has now, and nothing else; it is in the order of words. -/
structure Catalogue (dictionary : Dictionary) (stem : Word) (listed : List (Word × Int)) : Prop where
  ordered : listed.Pairwise fun first second => Word.Before first.1 second.1
  mem_iff : ∀ word probability, (word, probability) ∈ listed ↔
    stem <+: word ∧ dictionary.standing word = some (false, false, probability)

namespace Catalogue

variable {dictionary other : Dictionary} {stem : Word} {listed further : List (Word × Int)}

/-- No word is listed twice. -/
theorem nodup (catalogue : Catalogue dictionary stem listed) : (listed.map (·.1)).Nodup := by
  rw [List.Nodup, List.pairwise_map]
  refine catalogue.ordered.imp fun ahead same => ?_
  rw [same] at ahead
  exact irrefl_of Word.Before _ ahead

/-- What words stand for determines the list, also its order. -/
theorem unique (catalogue : Catalogue dictionary stem listed)
    (catalogueOther : Catalogue other stem further)
    (same : ∀ word, other.standing word = dictionary.standing word) : further = listed := by
  have perm : further.Perm listed := by
    refine (List.perm_ext_iff_of_nodup (List.Nodup.of_map _ catalogueOther.nodup)
      (List.Nodup.of_map _ catalogue.nodup)).mpr fun (word, probability) => ?_
    rw [catalogueOther.mem_iff, catalogue.mem_iff, same]
  exact perm.eq_of_pairwise (fun _ _ _ _ ahead behind => (asymm_of Word.Before ahead behind).elim)
    catalogueOther.ordered catalogue.ordered

/-- The words that begin with a longer stem are some of those that begin with a shorter one. -/
theorem filter {longer : Word} (catalogue : Catalogue dictionary stem listed)
    (begins : stem <+: longer) :
    Catalogue dictionary longer (listed.filter fun entry => longer.isPrefixOf entry.1) := by
  refine ⟨catalogue.ordered.sublist List.filter_sublist, fun word probability => ?_⟩
  rw [List.mem_filter, catalogue.mem_iff, List.isPrefixOf_iff_prefix]
  constructor
  · rintro ⟨⟨-, known⟩, further⟩
    exact ⟨further, known⟩
  · rintro ⟨further, known⟩
    exact ⟨⟨begins.trans further, known⟩, further⟩

end Catalogue

namespace Genuine

variable {dictionary : Dictionary}

/-- The completions of a word are a catalogue. -/
theorem exists_catalogue (genuine : Genuine dictionary) (stem : Word) :
    ∃ listed, dictionary.completions stem = pure listed ∧ Catalogue dictionary stem listed := by
  obtain ⟨vocabulary, content⟩ := genuine.sturdy.1
  have represents : dictionary.cleared.Represents vocabulary := ⟨content, rfl⟩
  obtain ⟨listed, completed, listing⟩ := represents.completions_listing stem
  rw [completions_cleared] at completed
  refine ⟨listed, completed, listing.ordered, fun word probability => ?_⟩
  rw [listing.mem_iff, standing, ← property_cleared, represents.property]
  refine and_congr_right fun _ => ?_
  rw [Reading.value_pure, Vocabulary.property, Option.map_map, Option.map_eq_some_iff]
  refine exists_congr fun unigram => and_congr_right fun _ => ?_
  simp only [Unigram.suggestible, Function.comp_apply, Prod.mk.injEq, Bool.and_eq_true,
    Bool.not_eq_true', and_assoc]

/-- A word that a walk does not come to is not stored. -/
theorem standing_of_not_visited (genuine : Genuine dictionary) {word : Word}
    (missing : word ∉ dictionary.visited) : dictionary.standing word = none := by
  obtain ⟨vocabulary, content⟩ := genuine.sturdy.1
  have represents : dictionary.cleared.Represents vocabulary := ⟨content, rfl⟩
  have visited : dictionary.visited = dictionary.cleared.visited := visited_congr rfl
  rw [visited, represents.visited, ← unigram?_eq_none] at missing
  rw [standing, ← property_cleared, represents.property, Vocabulary.property, missing]
  rfl

/-- The completions of a word are all stored words that begin with it and are neither flagged as no
words nor blacklisted, each once and with the probability that it has now; a word comes before its
extensions, and words that differ come in the order of the labels of their code points.  So another
dictionary in which the same words have the same flags and probabilities completes alike, whatever
happened to it. -/
theorem completions_catalogue (genuine : Genuine dictionary) (stem : Word) :
    ∃ listed, dictionary.completions stem = pure listed ∧
      (∀ word probability, (word, probability) ∈ listed ↔
        stem <+: word ∧ ∃ property, (dictionary.property word).value = some property ∧
          property.unigram.notAWord = false ∧ property.unigram.blacklisted = false ∧
          property.unigram.probability = probability) ∧
      (listed.map (·.1)).Nodup ∧
      listed.Pairwise (fun first second => List.Lex Label.Before first.1 second.1) ∧
      ∀ other, Genuine other → (∀ word, other.standing word = dictionary.standing word) →
        other.completions stem = pure listed := by
  obtain ⟨listed, completed, catalogue⟩ := genuine.exists_catalogue stem
  refine ⟨listed, completed, fun word probability => ?_, catalogue.nodup, catalogue.ordered, ?_⟩
  · rw [catalogue.mem_iff, standing, Option.map_eq_some_iff]
    simp only [Prod.mk.injEq]
  · intro other genuineOther same
    obtain ⟨further, completedOther, catalogueOther⟩ := genuineOther.exists_catalogue stem
    rw [completedOther, catalogue.unique catalogueOther same]

end Genuine

/-- Words of which some begin with others, some are flagged and some only lead to others. -/
def branching : List Operation :=
  [.request (.addUnigram [97, 98, 99] { probability := 7 }),
    .request (.addUnigram [97] { probability := 9 }),
    .request (.addUnigram [97, 98] { probability := 3, blacklisted := true }),
    .request (.addUnigram [128] { probability := 4 }),
    .request (.addUnigram [98] { probability := 5, notAWord := true })]

/-- The same words in another order, with a word overwritten and a compaction on the way. -/
def detoured : List Operation :=
  [.request (.addUnigram [98] { probability := 5, notAWord := true }),
    .request (.addUnigram [97] { probability := 1, blacklisted := true }),
    .request (.addUnigram [97, 98] { probability := 3, blacklisted := true }),
    .flushCompacted .empty "m",
    .request (.addUnigram [128] { probability := 4 }),
    .request (.addUnigram [97] { probability := 9 }),
    .request (.addUnigram [97, 98, 99] { probability := 7 })]

/-- Both ways to the same words lead to the same completions, whose order is that of the labels, not
of the code points. -/
theorem Genuine.completions_catalogue_branching :
    Genuine (reached .standard branching) ∧ Genuine (reached (.ofCapacity 20000) detoured) ∧
      (∀ word, (reached (.ofCapacity 20000) detoured).standing word =
        (reached .standard branching).standing word) ∧
      (reached .standard branching).completions [] =
        pure [([128], 4), ([97], 9), ([97, 98, 99], 7)] ∧
      (reached (.ofCapacity 20000) detoured).completions [] =
        pure [([128], 4), ([97], 9), ([97, 98, 99], 7)] := by
  have first := genuine_reached .standard branching
  have second := genuine_reached (.ofCapacity 20000) detoured
  have same : ∀ word, (reached (.ofCapacity 20000) detoured).standing word =
      (reached .standard branching).standing word := by
    intro word
    have listed : ∀ word ∈ (reached .standard branching).visited ++
        (reached (.ofCapacity 20000) detoured).visited,
        (reached (.ofCapacity 20000) detoured).standing word =
          (reached .standard branching).standing word := by decide +kernel
    by_cases known : word ∈ (reached .standard branching).visited ++
        (reached (.ofCapacity 20000) detoured).visited
    · exact listed word known
    · rw [List.mem_append, not_or] at known
      rw [first.standing_of_not_visited known.1, second.standing_of_not_visited known.2]
  obtain ⟨listed, completed, _, _, _, alike⟩ := first.completions_catalogue []
  have seen : (reached .standard branching).completions [] =
      pure [([128], 4), ([97], 9), ([97, 98, 99], 7)] := by decide +kernel
  have equal : listed = [([128], 4), ([97], 9), ([97, 98, 99], 7)] :=
    congrArg Reading.value (completed.symm.trans seen)
  refine ⟨first, second, same, seen, ?_⟩
  rw [alike _ second same, equal]

end Dictionary

end Lexicon

/-
Module: Lexicon.Proofs.Dictionary.Reservation
Layer: Proofs
Purpose: What is added takes no more room than was reserved for it, also in a dictionary that was
  opened from an image that says anything; so it stays below the ceiling, and the offsets of what is
  added fit the fields that hold them.
Imports: Lexicon.Proofs.Dictionary.Filling, Lexicon.Proofs.Dictionary.Refusal,
  Lexicon.Proofs.Forest.Expansion
Trusted boundary: none
Main exports: Dictionary.Demand, Dictionary.Declined, Dictionary.Housed, Dictionary.UnigramStored,
  Dictionary.BigramStored, Dictionary.meets_addUnigram, Dictionary.meets_addBigram,
  Dictionary.Attained.addition_reserved
-/
import Lexicon.Proofs.Dictionary.Filling
import Lexicon.Proofs.Dictionary.Refusal
import Lexicon.Proofs.Forest.Expansion

namespace Lexicon

open Forest (Coherent)
open Vocabulary (unigramSize recordSize keyRoom)

/-- Whether an error tells of a lack of room, or of a limit that is reached. -/
def Error.tellsOfRoom : Error → Bool
  | .forestFull => true
  | .bufferFull .. => true
  | .limitReached .. => true
  | _ => false

namespace Forest

/-- Under a key below which a table is nested, something is stored. -/
theorem contains_of_nested {forest : Forest} {table nested : Table} {key : Int32}
    (has : forest.nested? table key = some nested) : forest.contains table key = true := by
  unfold nested? at has
  rw [contains]
  split at has
  next => cases has
  next located => rw [located, Option.isSome_some]

end Forest

namespace Dictionary

/-! ### Slots that filing takes -/

section Filing

variable {forest : Forest} {table : Table} {key : Int32}

/-- Entering a table takes the slots for its key and for the table, at most. -/
theorem slotCount_entering_le {most : Nat} {rest : Table → Mutation Forest Unit}
    (further : ∀ nested wide, ((rest nested).apply wide).2.slotCount ≤ wide.slotCount + most) :
    ((entering table key rest).apply forest).2.slotCount ≤ forest.slotCount + (33 + most) := by
  have nests : ∀ wide : Forest,
      ((nest table key >>= rest).apply wide).2.slotCount ≤ wide.slotCount + (1 + most) := by
    intro wide
    have grown := (wide.slotCount_createNested table key).2
    rw [Mutation.apply_bind, nest, Mutation.apply_ofChange]
    generalize wide.createNested? table key = created at grown
    obtain ⟨nested, after⟩ := created
    cases nested with
    | none =>
        dsimp only at grown ⊢
        omega
    | some nested =>
        have more := further nested after
        dsimp only at grown ⊢
        omega
  rw [entering_eq]
  split
  next =>
    have grown := nests forest
    omega
  next =>
    have grown := forest.slotCount_put_le table key 0
    rw [Mutation.apply_bind, Mutation.apply_ofChange]
    generalize forest.put table key 0 = stored at grown
    obtain ⟨answer, after⟩ := stored
    cases answer with
    | error error =>
        dsimp only at grown ⊢
        omega
    | ok =>
        have more := nests after
        dsimp only at grown ⊢
        omega

/-- Filing a word takes thirty-three slots for each of its code points, at most. -/
theorem slotCount_fileWord_le (terminal : Nat) (word : Word) : ∀ (table : Table) (forest : Forest),
    ((fileWord terminal table word).apply forest).2.slotCount ≤
      forest.slotCount + 33 * word.length := by
  induction word with
  | nil => exact fun _ _ => Nat.le_refl _
  | cons codePoint rest ih =>
      intro table forest
      cases rest with
      | nil => exact Nat.le_succ_of_le (forest.slotCount_put_le table codePoint (terminal + 1))
      | cons next rest =>
          rw [fileWord_cons]
          refine Nat.le_trans (slotCount_entering_le ih) ?_
          simp only [List.length_cons]
          omega

/-- Filing a bigram takes sixty-five slots at most. -/
theorem slotCount_fileBigram_le (source target record : Nat) :
    ((fileBigram source target record).apply forest).2.slotCount ≤ forest.slotCount + 65 := by
  rw [fileBigram_eq]
  exact slotCount_entering_le fun nested wide => wide.slotCount_put_le nested _ record

/-- Filing a bigram that is there takes no slots. -/
theorem slotCount_fileBigram_of_nested {source target record : Nat}
    (has : forest.nested? Forest.root (wordKey source) = some table)
    (known : forest.contains table (wordKey target) = true) :
    ((fileBigram source target record).apply forest).2.slotCount = forest.slotCount := by
  rw [fileBigram_eq, entering_eq, if_pos (Forest.contains_of_nested has), Mutation.apply_bind, nest,
    Mutation.apply_ofChange, Forest.createNested_of_nested has]
  exact Forest.slotCount_put_of_contains record known

/-- Filing a bigram takes no slots if it is there, and else sixty-five at most. -/
theorem slotCount_fileBigram_hasBigram (dictionary : Dictionary) (source target record : Nat) :
    ((fileBigram source target record).apply dictionary.content.followers).2.slotCount ≤
      dictionary.content.followers.slotCount +
        if dictionary.hasBigram source target then 0 else 65 := by
  split
  next known =>
    rw [hasBigram] at known
    split at known
    next => cases known
    next table has => exact Nat.le_of_eq (slotCount_fileBigram_of_nested has known)
  next => exact slotCount_fileBigram_le source target record

end Filing

/-! ### What is asked for, and why it is declined -/

/-- What something that is added asks for: room, and to be one of a limited number of things. -/
structure Demand where
  /-- The bytes that are reserved. -/
  room : Nat
  limit : Limit
  /-- How many things there may be. -/
  most : Nat
  /-- How many there are. -/
  count : Nat

/-- The bytes that are reserved for a unigram: its record, and for a word that is not found the record
of the word and room for each of its code points. -/
def unigramDemand (dictionary : Dictionary) (word : Word) (unigram : Unigram) : Demand :=
  { room := unigramSize dictionary.version unigram +
      if (dictionary.find word).value.isSome then 0 else recordSize word + keyRoom word.length
    limit := .unigrams
    most := dictionary.configuration.maxUnigrams
    count := dictionary.content.unigramCount }

/-- Whether both words are found, and a bigram of them is there. -/
def relates (dictionary : Dictionary) (first second : Word) : Bool :=
  match (dictionary.find first).value, (dictionary.find second).value with
  | some source, some target => dictionary.hasBigram source target
  | _, _ => false

/-- The bytes that are reserved for a bigram: its record, and for one that is not there room for its
two keys. -/
def bigramDemand (dictionary : Dictionary) (first second : Word) : Demand :=
  { room := BigramRecord.size dictionary.version +
      if dictionary.relates first second then 0 else keyRoom 2
    limit := .bigrams
    most := dictionary.configuration.maxBigrams
    count := dictionary.content.bigramCount }

/-- Why a demand is declined: there are as many things as there may be, there is no room, or for a
reason that has nothing to do with either. -/
inductive Declined (dictionary : Dictionary) (demand : Demand) : Error → Prop where
  | limited (reached : demand.most ≤ demand.count) :
      Declined dictionary demand (.limitReached demand.limit demand.most)
  | crowded (lacking : ceiling dictionary.configuration < dictionary.usedBytes + demand.room) :
      Declined dictionary demand
        (.bufferFull dictionary.usedBytes demand.room (ceiling dictionary.configuration))
  | unrelated {error : Error} (unrelated : error.tellsOfRoom = false) :
      Declined dictionary demand error

/-- What was added has its room: there was as much as was reserved, and no more was taken. -/
structure Housed (before after : Dictionary) (room : Nat) : Prop where
  afforded : before.usedBytes + room ≤ ceiling before.configuration
  growth : after.usedBytes ≤ before.usedBytes + room
  terms : after.terms = before.terms

theorem Housed.configuration {before after : Dictionary} {room : Nat}
    (housed : Housed before after room) : after.configuration = before.configuration :=
  congrArg Vocabulary.Terms.limits housed.terms

/-- What is stored when a unigram is added.  A word that is found gets another unigram record, else
there is another word. -/
inductive UnigramStored (before : Dictionary) (word : Word) (unigram : Unigram) : Content → Prop where
  | replaced {offset : Nat} {terminal : Terminal} (found : (before.find word).value = some offset)
      (read : (before.readTerminal offset).value = some terminal) :
      UnigramStored before word unigram
        { before.content with
          records := Buffer.append before.content.records (unigram.encode before.version)
          terminals := Buffer.overwrite before.content.terminals (offset + terminal.pointerField)
            (LittleEndian.encode 4 before.content.records.size) }
  | inserted {words : Forest} (new : (before.find word).value = none)
      (filed : (fileWord before.content.terminals.size Forest.root word).apply before.content.words =
        (.ok (), words)) :
      UnigramStored before word unigram
        { before.content with
          words := words
          terminals := Buffer.append before.content.terminals
            (Terminal.encode { word := word, unigram := before.content.records.size })
          records := Buffer.append before.content.records (unigram.encode before.version)
          unigramCount := before.content.unigramCount + 1 }

/-- Adding a word adds no bigram. -/
theorem bigramCount_of_stored {before : Dictionary} {word : Word} {unigram : Unigram}
    {content : Content} (stored : UnigramStored before word unigram content) :
    content.bigramCount = before.content.bigramCount := by
  cases stored with
  | replaced => rfl
  | inserted => rfl

/-- What is stored when a bigram is added. -/
inductive BigramStored (before : Dictionary) (first : Word) (bigram : Bigram) : Content → Prop where
  | filed {source target : Nat} {followers : Forest}
      (found : (before.find first).value = some source)
      (foundTarget : (before.find bigram.target).value = some target)
      (filed : (fileBigram source target before.content.records.size).apply
        before.content.followers = (.ok (), followers)) :
      BigramStored before first bigram
        { before.content with
          followers := followers
          records := Buffer.append before.content.records (bigram.encode before.version)
          bigramCount := before.content.bigramCount +
            if before.hasBigram source target then 0 else 1 }

section Additions

variable {before : Dictionary} {loose : Prop}

/-- In the course of a change a reading is taken note of. -/
theorem meets_reading {α : Type} {errs : Error → Dictionary → Prop} (reading : Reading α) :
    Meets (Noted before) (liftM reading : Mutation Dictionary α)
      (fun value after => value = reading.value ∧ Noted before after) errs :=
  fun _ noted => ⟨rfl, noted.note reading⟩

/-- A reservation that fails is one for which there is no room. -/
theorem declined_of_reserve {bytes keys : Nat} {demand : Demand} {error : Error}
    (room : bytes + keyRoom keys = demand.room)
    (refused : before.reserve bytes keys = .error error) : Declined before demand error := by
  rw [reserve_eq, room, afford_eq] at refused
  split at refused
  next lacking =>
    cases refused
    exact .crowded lacking
  next => cases refused

theorem afforded_of_reserve {bytes keys : Nat} (reserved : before.reserve bytes keys = .ok ()) :
    before.usedBytes + (bytes + keyRoom keys) ≤ ceiling before.configuration := by
  rw [reserve_eq, afford_eq] at reserved
  split at reserved
  next => cases reserved
  next afforded => exact Nat.le_of_not_lt afforded

/-! Whether changes are accepted and whether words and probabilities can be stored has nothing to do
with room. -/

theorem tellsOfRoom_of_checkUpdatable {error : Error}
    (refused : before.checkUpdatable = .error error) : error.tellsOfRoom = false := by
  rw [checkUpdatable] at refused
  split at refused
  next => cases refused
  next =>
    cases refused
    rfl

theorem tellsOfRoom_of_checkWord {word : Word} {error : Error}
    (refused : checkWord word = .error error) : error.tellsOfRoom = false := by
  rw [checkWord] at refused
  split at refused
  next =>
    cases refused
    rfl
  next => cases refused

theorem tellsOfRoom_of_checkProbability {probability : Int} {error : Error}
    (refused : checkProbability probability = .error error) : error.tellsOfRoom = false := by
  rw [checkProbability] at refused
  split at refused
  next => cases refused
  next =>
    cases refused
    rfl

/-- Of two checks the first that fails tells. -/
theorem tellsOfRoom_of_checks {first second : Except Error Unit} {error : Error}
    (one : ∀ {error : Error}, first = .error error → error.tellsOfRoom = false)
    (other : ∀ {error : Error}, second = .error error → error.tellsOfRoom = false)
    (refused : (first >>= fun _ => second) = .error error) : error.tellsOfRoom = false := by
  cases first with
  | error =>
      cases refused
      exact one rfl
  | ok => exact other refused

theorem tellsOfRoom_of_checkShortcut {shortcut : Shortcut} {error : Error}
    (refused : checkShortcut shortcut = .error error) : error.tellsOfRoom = false :=
  tellsOfRoom_of_checks tellsOfRoom_of_checkWord tellsOfRoom_of_checkProbability refused

theorem tellsOfRoom_of_checkShortcuts (shortcuts : List Shortcut) : ∀ {error : Error},
    shortcuts.forM checkShortcut = .error error → error.tellsOfRoom = false := by
  induction shortcuts with
  | nil => exact nofun
  | cons shortcut shortcuts ih =>
      intro error refused
      exact tellsOfRoom_of_checks tellsOfRoom_of_checkShortcut ih refused

/-- Why a unigram cannot be stored in any dictionary: it has too many shortcuts, or for a reason that
has nothing to do with room and limits. -/
inductive Unstorable (unigram : Unigram) : Error → Prop where
  | crammed (many : maxShortcuts < unigram.shortcuts.length) :
      Unstorable unigram (.limitReached .shortcuts maxShortcuts)
  | unrelated {error : Error} (unrelated : error.tellsOfRoom = false) : Unstorable unigram error

theorem unstorable_of_checkUnigram {word : Word} {unigram : Unigram} {error : Error}
    (refused : checkUnigram word unigram = .error error) : Unstorable unigram error := by
  rw [checkUnigram] at refused
  by_cases many : unigram.shortcuts.length > maxShortcuts
  · rw [if_pos many] at refused
    cases checked : checkWord word with
    | error =>
        rw [checked] at refused
        cases refused
        exact .unrelated (tellsOfRoom_of_checkWord checked)
    | ok =>
        rw [checked] at refused
        cases checkedProbability : checkProbability unigram.probability with
        | error =>
            rw [checkedProbability] at refused
            cases refused
            exact .unrelated (tellsOfRoom_of_checkProbability checkedProbability)
        | ok =>
            rw [checkedProbability] at refused
            cases refused
            exact .crammed many
  · rw [if_neg many] at refused
    refine .unrelated (tellsOfRoom_of_checks tellsOfRoom_of_checkWord ?_ refused)
    exact tellsOfRoom_of_checks tellsOfRoom_of_checkProbability
      (tellsOfRoom_of_checkShortcuts unigram.shortcuts)

theorem tellsOfRoom_of_checkBigram {first : Word} {bigram : Bigram} {error : Error}
    (refused : checkBigram first bigram = .error error) : error.tellsOfRoom = false := by
  rw [checkBigram] at refused
  refine tellsOfRoom_of_checks tellsOfRoom_of_checkWord ?_ refused
  exact tellsOfRoom_of_checks tellsOfRoom_of_checkWord tellsOfRoom_of_checkProbability

theorem meets_replaceUnigram {word : Word} {offset : Nat} (unigram : Unigram)
    (found : (before.find word).value = some offset) :
    Meets (Noted before) (replaceUnigram offset (unigram.encode before.version))
      (fun _ after => Housed before after (before.unigramDemand word unigram).room ∧
        UnigramStored before word unigram after.content)
      fun error _ => Declined before (before.unigramDemand word unigram) error := by
  have room : (unigram.encode before.version).length + keyRoom 0 =
      (before.unigramDemand word unigram).room := by
    simp [unigramDemand, found, Unigram.length_encode, Vocabulary.keyRoom_eq]
  refine .get_bind fun dictionary noted => ?_
  rw [noted]
  refine (meets_reading _).bind fun terminal => .given fun read => ?_
  cases terminal with
  | none => exact .throw fun _ _ => .unrelated rfl
  | some terminal =>
      refine .check_bind (fun _ reserved => ?_) fun error refused _ _ =>
        declined_of_reserve room refused
      refine (meets_reading _).bind fun old => .given fun _ state noted => ?_
      rw [noted]
      have afforded := afforded_of_reserve reserved
      rw [room] at afforded
      refine ⟨⟨afforded, ?_, rfl⟩, .replaced found read.symm⟩
      rw [← room, usedBytes_eq, usedBytes_eq]
      dsimp only
      rw [Buffer.size_append, Buffer.size_overwrite]
      omega

/-- Where room was reserved a word is filed, or refused for the depth of a key. -/
theorem meets_fileWord (sustains : Sustains (Coherent loose) before.content) {word : Word}
    (letters : word ≠ []) {bytes : Nat} (reserved : before.reserve bytes word.length = .ok ())
    {demand : Demand} :
    Meets (Noted before) (onWords (fileWord before.content.terminals.size Forest.root word))
      (fun _ after => ∃ words, (fileWord before.content.terminals.size Forest.root word).apply
        before.content.words = (.ok (), words) ∧
          Noted { before with content := { before.content with words := words } } after)
      fun error _ => Declined before demand error := by
  refine .onPart fun state noted => ?_
  rw [noted]
  rcases fileWord_of_reserve sustains letters reserved with ⟨words, filed⟩ | ⟨key, refused⟩
  · rw [filed]
    exact ⟨words, rfl, rfl⟩
  · rw [refused]
    exact .unrelated rfl

theorem meets_insertUnigram (sustains : Sustains (Coherent loose) before.content) {word : Word}
    (letters : word ≠ []) (unigram : Unigram) (new : (before.find word).value = none) :
    Meets (Noted before) (insertUnigram word (unigram.encode before.version))
      (fun _ after => Housed before after (before.unigramDemand word unigram).room ∧
        UnigramStored before word unigram after.content)
      fun error _ => Declined before (before.unigramDemand word unigram) error := by
  have room : (unigram.encode before.version).length +
      (Terminal.encode { word := word, unigram := before.content.records.size }).length +
        keyRoom word.length = (before.unigramDemand word unigram).room := by
    simp [unigramDemand, new, Unigram.length_encode, Terminal.length_encode,
      ← Vocabulary.recordSize_eq, Nat.add_assoc]
  refine .get_bind fun dictionary noted => ?_
  rw [noted]
  refine .require_bind (fun _ => ?_) fun full _ _ =>
    .limited (Nat.le_of_not_lt (of_decide_eq_false full))
  refine .check_bind (fun _ reserved => ?_) fun error refused _ _ =>
    declined_of_reserve room refused
  have affordedHere := afforded_of_reserve reserved
  have afforded : before.usedBytes + (before.unigramDemand word unigram).room ≤
      ceiling before.configuration := room ▸ affordedHere
  have grown := slotCount_fileWord_le before.content.terminals.size word Forest.root
    before.content.words
  refine (meets_fileWord sustains letters reserved).bind fun _ state ⟨words, filed, noted⟩ => ?_
  rw [noted]
  refine ⟨⟨afforded, ?_, rfl⟩, .inserted new filed⟩
  rw [filed] at grown
  rw [← room, Vocabulary.keyRoom_eq, usedBytes_eq, usedBytes_eq]
  dsimp only at grown ⊢
  rw [Buffer.size_append, Buffer.size_append]
  omega

/-- What becomes of a request to add a word, whatever the dictionary was opened from. -/
theorem meets_addUnigram (sustains : Sustains (Coherent loose) before.content) (word : Word)
    (unigram : Unigram) :
    Meets (Noted before) (addUnigram word unigram)
      (fun _ after => checkUnigram word unigram = .ok () ∧
        Housed before after (before.unigramDemand word unigram).room ∧
        UnigramStored before word unigram after.content)
      fun error _ => Unstorable unigram error ∨ checkUnigram word unigram = .ok () ∧
        Declined before (before.unigramDemand word unigram) error := by
  refine .get_bind fun dictionary noted => ?_
  rw [noted]
  refine .check_bind (fun _ _ => ?_) fun error refused _ _ =>
    .inl (.unrelated (tellsOfRoom_of_checkUpdatable refused))
  refine .check_bind (fun _ checked => ?_) fun error refused _ _ =>
    .inl (unstorable_of_checkUnigram refused)
  obtain ⟨⟨letters, _⟩, _⟩ := checkUnigram_eq_ok.mp checked
  refine (meets_reading _).bind fun found => .given fun read => ?_
  have here : found = (before.find word).value := read
  cases found with
  | none =>
      exact (meets_insertUnigram sustains letters unigram here.symm).weaken
        (fun _ _ stored => ⟨checked, stored⟩) fun _ _ declined => .inr ⟨checked, declined⟩
  | some offset =>
      exact (meets_replaceUnigram unigram here.symm).weaken
        (fun _ _ stored => ⟨checked, stored⟩) fun _ _ declined => .inr ⟨checked, declined⟩

/-- A word that has to be stored is found, or it is said that it is not. -/
theorem meets_require {demand : Demand} (word : Word) :
    Meets (Noted before) (require word)
      (fun offset after => (before.find word).value = some offset ∧ Noted before after)
      fun error _ => Declined before demand error := by
  refine .get_bind fun dictionary noted => ?_
  rw [noted]
  refine (meets_reading _).bind fun found => .given fun read => ?_
  cases found with
  | none => exact .throw fun _ _ => .unrelated rfl
  | some offset => exact .pure fun _ noted => ⟨read.symm, noted⟩

/-- What a bigram takes once it is filed. -/
theorem housed_of_filed {after : Dictionary} {first : Word} {bigram : Bigram} {source target : Nat}
    {followers : Forest} (found : (before.find first).value = some source)
    (foundTarget : (before.find bigram.target).value = some target)
    (filed : (fileBigram source target before.content.records.size).apply
      before.content.followers = (.ok (), followers))
    (afforded : before.usedBytes + (before.bigramDemand first bigram.target).room ≤
      ceiling before.configuration)
    (stored : after =
      { before with
        content :=
          { before.content with
            followers := followers
            records := Buffer.append before.content.records (bigram.encode before.version)
            bigramCount := before.content.bigramCount +
              if before.hasBigram source target then 0 else 1 }
        superseded := after.superseded
        damaged := after.damaged }) :
    Housed before after (before.bigramDemand first bigram.target).room ∧
      BigramStored before first bigram after.content := by
  have grown := slotCount_fileBigram_hasBigram before source target before.content.records.size
  rw [filed] at grown
  rw [stored]
  refine ⟨⟨afforded, ?_, rfl⟩, .filed found foundTarget filed⟩
  simp only [bigramDemand, relates, found, foundTarget]
  rw [usedBytes_eq, usedBytes_eq]
  dsimp only at grown ⊢
  rw [Buffer.size_append, Bigram.length_encode, Vocabulary.keyRoom_eq]
  split at grown
  next known =>
    rw [if_pos known]
    omega
  next unknown =>
    rw [if_neg unknown]
    omega

/-- Where room was reserved a bigram is filed, or refused for the depth of a key. -/
theorem meets_fileBigram (sustains : Sustains (Coherent loose) before.content)
    {source target bytes keys : Nat} (reserved : before.reserve bytes keys = .ok ())
    {demand : Demand} :
    Meets (Noted before) (onFollowers (fileBigram source target before.content.records.size))
      (fun _ after => ∃ followers, (fileBigram source target before.content.records.size).apply
        before.content.followers = (.ok (), followers) ∧
          Noted { before with content := { before.content with followers := followers } } after)
      fun error _ => Declined before demand error := by
  refine .onPart fun state noted => ?_
  rw [noted]
  rcases fileBigram_of_reserve sustains source target reserved with
    ⟨followers, filed⟩ | ⟨key, refused⟩
  · rw [filed]
    exact ⟨followers, rfl, rfl⟩
  · rw [refused]
    exact .unrelated rfl

theorem meets_storeBigram (sustains : Sustains (Coherent loose) before.content) {first : Word}
    {bigram : Bigram} {source target : Nat} (found : (before.find first).value = some source)
    (foundTarget : (before.find bigram.target).value = some target) :
    Meets (Noted before) (storeBigram source target (bigram.encode before.version))
      (fun _ after => Housed before after (before.bigramDemand first bigram.target).room ∧
        BigramStored before first bigram after.content)
      fun error _ => Declined before (before.bigramDemand first bigram.target) error := by
  have room : (bigram.encode before.version).length +
      keyRoom (if before.hasBigram source target then 0 else 2) =
        (before.bigramDemand first bigram.target).room := by
    simp only [bigramDemand, relates, found, foundTarget, Bigram.length_encode]
    split
    next => rfl
    next => rfl
  refine .get_bind fun dictionary noted => ?_
  rw [noted]
  dsimp only
  split
  next known =>
    have there : before.hasBigram source target = true := known
    rw [if_pos there] at room
    refine .check_bind (fun _ reserved => ?_) fun error refused _ _ =>
      declined_of_reserve room refused
    refine (meets_fileBigram sustains reserved).bind fun _ state ⟨followers, filed, noted⟩ => ?_
    rw [noted]
    refine housed_of_filed found foundTarget filed (room ▸ afforded_of_reserve reserved) ?_
    rw [if_pos there]
    rfl
  next unknown =>
    have lacking : ¬ before.hasBigram source target = true := unknown
    rw [if_neg lacking] at room
    refine .require_bind (fun _ => ?_) fun full _ _ =>
      .limited (Nat.le_of_not_lt (of_decide_eq_false full))
    refine .check_bind (fun _ reserved => ?_) fun error refused _ _ =>
      declined_of_reserve room refused
    refine (meets_fileBigram sustains reserved).bind fun _ state ⟨followers, filed, noted⟩ => ?_
    rw [noted]
    refine housed_of_filed found foundTarget filed (room ▸ afforded_of_reserve reserved) ?_
    rw [if_neg lacking]

/-- What becomes of a request to add a bigram, whatever the dictionary was opened from. -/
theorem meets_addBigram (sustains : Sustains (Coherent loose) before.content) (first : Word)
    (bigram : Bigram) :
    Meets (Noted before) (addBigram first bigram)
      (fun _ after => Housed before after (before.bigramDemand first bigram.target).room ∧
        BigramStored before first bigram after.content)
      fun error _ => Declined before (before.bigramDemand first bigram.target) error := by
  refine .get_bind fun dictionary noted => ?_
  rw [noted]
  refine .check_bind (fun _ _ => ?_) fun error refused _ _ =>
    .unrelated (tellsOfRoom_of_checkUpdatable refused)
  refine .check_bind (fun _ _ => ?_) fun error refused _ _ =>
    .unrelated (tellsOfRoom_of_checkBigram refused)
  refine (meets_require first).bind fun source => .given fun found => ?_
  refine (meets_require bigram.target).bind fun target => .given fun foundTarget => ?_
  exact meets_storeBigram sustains found foundTarget

end Additions

/-! ### Offsets in their fields -/

/-- Where a terminal record begins fits the slot of its word, which holds one more, and is not wrapped
as the key of the word. -/
def FitsAsTerminal (offset : Nat) : Prop :=
  offset + 1 ≤ Forest.maxValue ∧ (wordKey offset).toInt = offset

/-- Where a record begins fits the four bytes of a terminal record and the slot of a bigram. -/
def FitsAsRecord (offset : Nat) : Prop :=
  LittleEndian.decode (LittleEndian.encode 4 offset) = offset ∧ offset ≤ Forest.maxValue

/-- Offsets below the ceiling are positive as signed numbers. -/
theorem toInt_wordKey {offset : Nat} (small : offset ≤ maxBufferBytes) :
    (wordKey offset).toInt = offset := by
  have limit : maxBufferBytes = 2147483647 := rfl
  rw [wordKey, LittleEndian.signedOfNat, UInt32.toInt32_ofNat', Int32.toInt_ofNat_of_lt (by omega)]

theorem fitsAsTerminal {offset : Nat} (small : offset ≤ maxBufferBytes) : FitsAsTerminal offset := by
  have limit : maxBufferBytes = 2147483647 := rfl
  have largest : Forest.maxValue = 68719476735 := rfl
  exact ⟨by omega, toInt_wordKey small⟩

theorem fitsAsRecord {offset : Nat} (small : offset ≤ maxBufferBytes) : FitsAsRecord offset := by
  have limit : maxBufferBytes = 2147483647 := rfl
  have largest : Forest.maxValue = 68719476735 := rfl
  have span : LittleEndian.span 4 = 4294967296 := rfl
  exact ⟨LittleEndian.decode_encode_of_lt (by omega), by omega⟩

/-- What is found of a word is never too large for a key to name it. -/
theorem le_of_find {dictionary : Dictionary} {word : Word} {offset : Nat}
    (found : (dictionary.find word).value = some offset) : offset ≤ maxOffset := by
  unfold find at found
  split at found
  next => cases found
  next =>
    split at found
    next => cases found
    next =>
      split at found
      next => cases found
      next small =>
        cases found
        exact Nat.le_of_not_lt small

/-- What is known of an answer to a request for which some room is reserved. -/
structure Reserved (before : Dictionary) (room : Nat) (answer : Except Error Unit)
    (after : Dictionary) : Prop where
  /-- Slots never run out. -/
  available : answer ≠ .error .forestFull
  /-- Where there is no room, so much was asked for. -/
  requested : ∀ {used requested capacity : Nat},
    answer = .error (.bufferFull used requested capacity) →
      used = before.usedBytes ∧ requested = room ∧ capacity = ceiling before.configuration ∧
        capacity < used + requested
  /-- Where there is room, no more is taken. -/
  housed : answer = .ok () →
    after.usedBytes ≤ before.usedBytes + room ∧ after.usedBytes ≤ ceiling after.configuration
  /-- New records begin where their offsets fit the fields that hold them. -/
  fits : answer = .ok () →
    FitsAsTerminal before.content.terminals.size ∧ FitsAsRecord before.content.records.size

theorem reserved_of_housed {before after : Dictionary} {room : Nat}
    (housed : Housed before after room) : Reserved before room (.ok ()) after := by
  have within : ceiling before.configuration ≤ maxBufferBytes := Nat.min_le_right _ _
  have afforded := housed.afforded
  have total := usedBytes_eq before
  refine ⟨nofun, nofun, fun _ => ⟨housed.growth, ?_⟩, fun _ => ⟨fitsAsTerminal ?_, fitsAsRecord ?_⟩⟩
  · rw [housed.configuration]
    exact Nat.le_trans housed.growth afforded
  · omega
  · omega

theorem reserved_of_declined {before after : Dictionary} {demand : Demand} {error : Error}
    (declined : Declined before demand error) :
    Reserved before demand.room (.error error) after := by
  cases declined with
  | limited => exact ⟨nofun, nofun, nofun, nofun⟩
  | crowded lacking =>
      refine ⟨nofun, fun told => ?_, nofun, nofun⟩
      cases told
      exact ⟨rfl, rfl, rfl, lacking⟩
  | unrelated unrelated =>
      refine ⟨fun told => ?_, fun told => ?_, nofun, nofun⟩
      · cases told
        cases unrelated
      · cases told
        cases unrelated

/-- The offset of a word that is found is named by the key of the word, which is that number itself
where the offset is below the ceiling. -/
theorem named_of_find {dictionary : Dictionary} {word : Word} {offset : Nat}
    (found : (dictionary.find word).value = some offset) :
    wordOffset (wordKey offset) = offset ∧
      (offset ≤ maxBufferBytes → (wordKey offset).toInt = offset) :=
  ⟨wordOffset_wordKey (le_of_find found), toInt_wordKey⟩

/-- Whatever a dictionary was opened from, a unigram or a bigram that is added takes no more than was
reserved for it, and the dictionary stays below the ceiling.  So new records begin at offsets that
their fields hold, and slots never run out: storing a value takes at most thirty-two slots and
creating a table one, and overwriting and removing take none.  The key under which a bigram is filed
names the offset that is found of a word; it is that number itself wherever there are records. -/
theorem Attained.addition_reserved {dictionary : Dictionary} (attained : Attained dictionary) :
    (∀ word unigram answer after, (addUnigram word unigram).apply dictionary = (answer, after) →
        Reserved dictionary (dictionary.unigramDemand word unigram).room answer after ∧
          (answer = .ok () → UnigramStored dictionary word unigram after.content)) ∧
      (∀ first bigram answer after, (addBigram first bigram).apply dictionary = (answer, after) →
        Reserved dictionary (dictionary.bigramDemand first bigram.target).room answer after ∧
          (answer = .ok () → BigramStored dictionary first bigram after.content)) ∧
      (∀ word offset, (dictionary.find word).value = some offset →
        wordOffset (wordKey offset) = offset ∧
          (offset ≤ maxBufferBytes → (wordKey offset).toInt = offset)) ∧
      ∀ (forest : Forest) (table : Table) (key : Int32) (value : Nat),
        (forest.put table key value).2.slotCount ≤ forest.slotCount + 32 ∧
          (forest.contains table key = true →
            (forest.put table key value).2.slotCount = forest.slotCount) ∧
          (forest.createNested? table key).2.slotCount ≤ forest.slotCount + 1 ∧
          (forest.erase table key).2.slotCount = forest.slotCount := by
  have sustains := attained.sustains
  refine ⟨fun word unigram answer after done => ?_, fun first bigram answer after done => ?_,
    fun word offset => named_of_find, fun forest table key value => ?_⟩
  · obtain ⟨stored, declined⟩ :=
      (meets_addUnigram sustains word unigram).outcome (.refl dictionary) done
    cases answer with
    | ok =>
        obtain ⟨_, housed, kept⟩ := stored () rfl
        exact ⟨reserved_of_housed housed, fun _ => kept⟩
    | error error =>
        refine ⟨?_, nofun⟩
        rcases declined error rfl with unstorable | ⟨_, declined⟩
        · cases unstorable with
          | crammed => exact ⟨nofun, nofun, nofun, nofun⟩
          | unrelated unrelated => exact reserved_of_declined (.unrelated unrelated)
        · exact reserved_of_declined declined
  · obtain ⟨stored, declined⟩ :=
      (meets_addBigram sustains first bigram).outcome (.refl dictionary) done
    cases answer with
    | ok =>
        obtain ⟨housed, kept⟩ := stored () rfl
        exact ⟨reserved_of_housed housed, fun _ => kept⟩
    | error error => exact ⟨reserved_of_declined (declined error rfl), nofun⟩
  · exact ⟨forest.slotCount_put_le table key value, Forest.slotCount_put_of_contains value,
      (forest.slotCount_createNested table key).2, forest.slotCount_erase table key⟩

/-- Limits with just the room that one letter asks for as a word. -/
def scant : Configuration :=
  { capacity := 812
    compactionThreshold := 812
    maxUnigrams := 10
    maxBigrams := 10
    eagerSuperseded := 812 }

/-- A letter is added in the room that is left, of which it takes twenty-eight bytes.  Then there is
none for a bigram. -/
theorem Attained.addition_reserved_scant :
    ∃ dictionary after last, create 4 "en" default scant = .ok dictionary ∧
      (addUnigram [97] { probability := 7 }).apply dictionary = (.ok (), after) ∧
      after.usedBytes = dictionary.usedBytes + 28 ∧
      Reserved dictionary 780 (.ok ()) after ∧
      (addBigram [97] { target := [97], probability := 7 }).apply after =
        (.error (.bufferFull 60 1537 812), last) ∧
      Reserved after 1537 (.error (.bufferFull 60 1537 812)) last := by
  have created : create 4 "en" default scant = .ok (empty ⟨.plain, "en", default⟩ scant) := rfl
  have room : ((empty ⟨.plain, "en", default⟩ scant).unigramDemand [97] { probability := 7 }).room =
      780 := by decide
  generalize outcome : (addUnigram [97] { probability := 7 }).apply
    (empty ⟨.plain, "en", default⟩ scant) = added
  obtain ⟨answer, after⟩ := added
  have accepted : answer = .ok () := (congrArg Prod.fst outcome).symm
  have remains : after = _ := (congrArg Prod.snd outcome).symm
  subst accepted
  have used : after.usedBytes = 60 := by
    rw [remains]
    decide +kernel
  have further : (after.bigramDemand [97] [97]).room = 1537 := by
    rw [remains]
    decide +kernel
  have refused : ((addBigram [97] { target := [97], probability := 7 }).apply after).1 =
      .error (.bufferFull 60 1537 812) := by
    rw [remains]
    rfl
  have attained : Attained after := remains ▸ (Attained.created created).performed [0]
    (.request (.addUnigram [97] { probability := 7 }))
  have reserved := (Attained.created created).addition_reserved.1 _ _ _ _ outcome
  have reservedAfter := attained.addition_reserved.2.1 [97] { target := [97], probability := 7 } _ _
    (Prod.ext refused rfl)
  rw [room] at reserved
  rw [further] at reservedAfter
  exact ⟨_, after, _, created, outcome, used, reserved.1, Prod.ext refused rfl, reservedAfter.1⟩

/-- A letter whose terminal record is said to begin above the ceiling. -/
def remote : Content :=
  { words :=
      ⟨.ofSlots #[.node (LabelSet.singleton (Label.ofKey 97 0)) 1 0, .entry 97 2147483649 none], 1⟩ }

/-- The image of that is accepted, and so is a bigram of that letter.  The offset that is found of the
letter is wrapped in the key under which the bigram is filed. -/
theorem Attained.key_wrapped :
    ∃ image dictionary after, Image.encode ⟨.plain, "en", default⟩ remote = .ok image ∧
      openFile ⟨[(["m"], .file image.toByteArray)]⟩ "m" 0 0 true .standard = .ok dictionary ∧
      (addBigram [97] { target := [97], probability := 7 }).apply dictionary = (.ok (), after) ∧
      (dictionary.find [97]).value = some 2147483648 ∧
      after.content.followers.contains Forest.root (wordKey 2147483648) = true ∧
      (wordKey 2147483648).toInt = -2147483648 := by
  obtain ⟨image, encoded, opened⟩ := exists_openFile_lone
    (show remote.words.Readable by decide +kernel) (show remote.followers.Readable by decide +kernel)
    ⟨by decide, by decide⟩ ⟨by decide, by decide⟩ .standard
  generalize same : ofContent ⟨.plain, "en", default⟩ remote.reloaded true .standard = dictionary
    at opened
  have found : (dictionary.find [97]).value = some 2147483648 := by rw [← same]; decide +kernel
  have answer : ((addBigram [97] { target := [97], probability := 7 }).apply dictionary).1 =
      .ok () := by
    rw [← same]; decide +kernel
  have filed : ((addBigram [97] { target := [97], probability := 7 }).apply
      dictionary).2.content.followers.contains Forest.root (wordKey 2147483648) = true := by
    rw [← same]; decide +kernel
  exact ⟨image, dictionary, _, encoded, opened, Prod.ext answer rfl, found, filed, by decide⟩

end Dictionary

end Lexicon

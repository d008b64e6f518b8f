/-
Module: Lexicon.Proofs.Dictionary.Slimness
Layer: Proofs
Purpose: Two forests that say the same, one of which has at least as much to reuse, stay like that
  when the same words and the same bigrams are filed in both.
Imports: Lexicon.Proofs.Dictionary.Level, Lexicon.Proofs.Forest.Reloading
Trusted boundary: none
Main exports: Forest.Slimmer, Forest.Abreast, Forest.Abreast.both_fileWord,
  Forest.Slimmer.both_fileBigram, Dictionary.files_slimmer
-/
import Lexicon.Proofs.Dictionary.Level
import Lexicon.Proofs.Forest.Reloading

namespace Lexicon

open Dictionary
open Mutation (Both)

namespace Forest

open Session (Twins)

/-- A table that is handed out is the one that its number means. -/
theorem Session.table_hand (forest : Forest) (handles : List Table) (table : Table) :
    (hand forest handles (some table)).2.table (handles.idxOf table) = table := by
  rw [Session.table, hand]
  dsimp only
  split
  next among =>
    have inside := List.idxOf_lt_length_of_mem among
    rw [Atlas.resolve, if_pos inside, List.getD_eq_getElem _ _ inside, List.getElem_idxOf]
  next new =>
    have last : handles.idxOf table = handles.length := List.idxOf_of_notMem new
    rw [last, Atlas.resolve, if_pos (by simp), List.getD_eq_getElem _ _ (by simp)]
    simp

/-! ### Forests that are slimmer than others -/

/-- Two forests say the same, and the first one has at least as much to reuse. -/
def Slimmer (lean fat : Forest) : Prop :=
  ∃ handles handlesFat atlas, Twins ⟨lean, handles⟩ ⟨fat, handlesFat⟩ atlas

/-- Two such forests, and a table of each of which the same is said. -/
def Abreast (lean fat : Forest) (table tableFat : Table) : Prop :=
  ∃ handles handlesFat atlas number, Twins ⟨lean, handles⟩ ⟨fat, handlesFat⟩ atlas ∧
    (Session.mk lean handles).table number = table ∧
    (Session.mk fat handlesFat).table number = tableFat

variable {lean fat : Forest} {table tableFat : Table}

theorem Abreast.slimmer (abreast : Abreast lean fat table tableFat) : Slimmer lean fat := by
  obtain ⟨handles, handlesFat, atlas, _, twins, _, _⟩ := abreast
  exact ⟨handles, handlesFat, atlas, twins⟩

namespace Slimmer

theorem new : Slimmer Forest.new Forest.new :=
  ⟨_, _, Atlas.start, Session.mirrors_start, Session.mirrors_start,
    .refl Session.mirrors_start.sound Session.mirrors_start.distinct⟩

/-- The roots of such forests correspond. -/
theorem abreast (slimmer : Slimmer lean fat) : Abreast lean fat root root := by
  obtain ⟨handles, handlesFat, atlas, twins⟩ := slimmer
  exact ⟨handles, handlesFat, atlas, 0, twins, Session.table_zero twins.mirrors.top,
    Session.table_zero twins.mirrorsFat.top⟩

theorem slotCount_le (slimmer : Slimmer lean fat) : lean.slotCount ≤ fat.slotCount := by
  obtain ⟨_, _, _, twins⟩ := slimmer
  exact twins.beside.leaner.size

/-- A forest that is slimmer than another one says the same as itself. -/
theorem self (slimmer : Slimmer lean fat) : Slimmer lean lean := by
  obtain ⟨handles, _, atlas, twins⟩ := slimmer
  exact ⟨handles, handles, atlas, twins.mirrors, twins.mirrors,
    .refl twins.mirrors.sound twins.mirrors.distinct⟩

/-- The copy of a forest, in which nothing is free, has no more to reuse than the forest had. -/
theorem reloaded (slimmer : Slimmer lean fat) : Slimmer lean fat.reloaded := by
  obtain ⟨handles, handlesFat, atlas, twins⟩ := slimmer
  exact ⟨handles, handlesFat, atlas, twins.reloaded⟩

end Slimmer

/-! ### Filing in both -/

namespace Abreast

/-- What is stored in both is stored in tables that still correspond. -/
theorem both_put (abreast : Abreast lean fat table tableFat) (key : Int32) (value : Nat) :
    Both (fun lean fat => Abreast lean fat table tableFat)
      (Mutation.ofChange fun forest => forest.put table key value)
      (Mutation.ofChange fun forest => forest.put tableFat key value) lean fat := by
  obtain ⟨handles, handlesFat, atlas, number, twins, rfl, rfl⟩ := abreast
  intro _ _ after afterFat stored storedFat
  rw [Mutation.apply_ofChange] at stored storedFat
  have roomy : ¬ (Session.mk fat handlesFat).Short (.put number key value) := by
    rw [Session.Short, storedFat]
    rintro ⟨⟩
  obtain ⟨_, further⟩ := twins.step _ roomy
  rw [Session.step, Session.step, stored, storedFat] at further
  exact ⟨rfl, handles, handlesFat, _, number, further, rfl, rfl⟩

theorem contains_eq (abreast : Abreast lean fat table tableFat) (key : Int32) :
    fat.contains tableFat key = lean.contains table key := by
  obtain ⟨handles, handlesFat, atlas, number, twins, rfl, rfl⟩ := abreast
  have reply := (twins.mirrors.step (.contains number key) nofun).1
  have replyFat := (twins.mirrorsFat.step (.contains number key) nofun).1
  exact Reply.holds.inj (replyFat.trans reply.symm)

/-- The tables that are nested below the same key correspond. -/
theorem nested (abreast : Abreast lean fat table tableFat) {key : Int32} {below belowFat : Table}
    {after afterFat : Forest} (created : lean.createNested? table key = (some below, after))
    (createdFat : fat.createNested? tableFat key = (some belowFat, afterFat)) :
    Abreast after afterFat below belowFat := by
  obtain ⟨handles, handlesFat, atlas, number, twins, rfl, rfl⟩ := abreast
  have roomy : ¬ (Session.mk fat handlesFat).Short (.createNested number key) := by
    rw [Session.Short, createdFat]
    rintro ⟨_, ⟨⟩⟩
  obtain ⟨short, further⟩ := twins.step _ roomy
  have reply := (twins.mirrors.step _ short).1
  have replyFat := (twins.mirrorsFat.step _ roomy).1
  rw [Session.step, created] at reply further
  rw [Session.step, createdFat] at replyFat further
  have same : handles.idxOf below = handlesFat.idxOf belowFat :=
    Option.some.inj (Reply.table.inj (reply.trans replyFat.symm))
  refine ⟨_, _, _, handles.idxOf below, further, Session.table_hand after handles below, ?_⟩
  rw [same]
  exact Session.table_hand afterFat handlesFat belowFat

/-- What is done in both after entering the tables below the same key. -/
theorem both_entering (abreast : Abreast lean fat table tableFat) (key : Int32)
    {rest : Table → Mutation Forest Unit}
    (further : ∀ {lean fat : Forest} {table tableFat : Table}, Abreast lean fat table tableFat →
      Both Slimmer (rest table) (rest tableFat) lean fat) :
    Both Slimmer (entering table key rest) (entering tableFat key rest) lean fat := by
  have nests : ∀ {lean fat : Forest}, Abreast lean fat table tableFat →
      Both Slimmer (nest table key >>= rest) (nest tableFat key >>= rest) lean fat := by
    intro lean fat abreast value answer after last done doneFat
    rw [Mutation.apply_bind, nest, Mutation.apply_ofChange] at done doneFat
    rcases created : lean.createNested? table key with ⟨_ | below, wide⟩
    · rw [created] at done
      cases done
    rcases createdFat : fat.createNested? tableFat key with ⟨_ | belowFat, wideFat⟩
    · rw [createdFat] at doneFat
      cases doneFat
    rw [created] at done
    rw [createdFat] at doneFat
    exact further (abreast.nested created createdFat) _ _ _ _ done doneFat
  intro value answer after last done doneFat
  rw [entering_eq] at done doneFat
  rw [abreast.contains_eq] at doneFat
  split at done
  next present =>
    rw [if_pos present] at doneFat
    exact nests abreast _ _ _ _ done doneFat
  next absent =>
    rw [if_neg absent] at doneFat
    have both := (abreast.both_put key 0).andThen fun _ {_ _} between => nests between
    exact both _ _ _ _ done doneFat

/-- The same word is filed in both.  The induction is on the word: each of its code points but the
last leads from tables that correspond to tables that do. -/
theorem both_fileWord (terminal : Nat) (word : Word) :
    ∀ {lean fat : Forest} {table tableFat : Table}, Abreast lean fat table tableFat →
      Both Slimmer (fileWord terminal table word) (fileWord terminal tableFat word) lean fat := by
  induction word with
  | nil => exact fun _ => .throw _ _
  | cons codePoint rest ih =>
      intro lean fat table tableFat abreast
      cases rest with
      | nil =>
          intro value answer after last done doneFat
          obtain ⟨same, between⟩ :=
            abreast.both_put codePoint (terminal + 1) _ _ _ _ done doneFat
          exact ⟨same, between.slimmer⟩
      | cons next rest => exact abreast.both_entering codePoint ih

end Abreast

/-- The same bigram is filed in both. -/
theorem Slimmer.both_fileBigram (slimmer : Slimmer lean fat) (source target record : Nat) :
    Both Slimmer (fileBigram source target record) (fileBigram source target record) lean fat := by
  rw [fileBigram_eq]
  refine slimmer.abreast.both_entering (wordKey source) fun between => ?_
  intro value answer after last done doneFat
  obtain ⟨same, ended⟩ := between.both_put (wordKey target) record _ _ _ _ done doneFat
  exact ⟨same, ended.slimmer⟩

end Forest

/-- A forest stays slimmer than another one when the same is filed in both. -/
theorem Dictionary.files_slimmer : Files Forest.Slimmer where
  word slimmer terminal word := slimmer.abreast.both_fileWord terminal word
  bigram slimmer := slimmer.both_fileBigram

end Lexicon

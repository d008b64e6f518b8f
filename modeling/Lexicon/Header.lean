/-
Module: Lexicon.Header
Layer: Domain
Purpose: What a dictionary says about itself: format version, locale and attributes.
Imports: Lexicon.Error
Trusted boundary: none
Main exports: FormatVersion, Attributes, Attributes.ofList, Header, Header.summary
-/
import Lexicon.Error

namespace Lexicon

/-! ### Format versions -/

/-- The formats in which dictionaries are stored. -/
inductive FormatVersion where
  /-- Words and bigrams without historical information. -/
  | plain
  /-- Words and bigrams with timestamps, levels and counts. -/
  | historical
deriving DecidableEq, Repr, Inhabited

namespace FormatVersion

/-- The number that stands for a format in images and requests. -/
def number : FormatVersion → Nat
  | .plain => 4
  | .historical => 403

/-- The format with a given number; other numbers are not supported. -/
def ofNumber (number : Nat) : Except Error FormatVersion :=
  if number = 4 then .ok .plain
  else if number = 403 then .ok .historical
  else .error (.unsupportedVersion number)

/-- Whether records of this format carry historical information. -/
def hasHistory : FormatVersion → Bool
  | .plain => false
  | .historical => true

theorem ofNumber_number (version : FormatVersion) : ofNumber version.number = .ok version := by
  cases version <;> rfl

end FormatVersion

/-! ### Attributes -/

namespace Attributes

/-- The bytes by which attribute keys are ordered. -/
def keyBytes (key : String) : List UInt8 := key.toUTF8.data.toList

theorem keyBytes_inj {first second : String} (same : keyBytes first = keyBytes second) :
    first = second := by
  apply String.ext_iff.mpr
  have bytes : first.toUTF8 = second.toUTF8 := by
    apply ByteArray.ext
    exact Array.toList_inj.mp same
  have eq : first = second := String.toByteArray_inj.mp bytes
  rw [eq]

/-- An attribute together with the bytes of its key. -/
abbrev Keyed := List UInt8 × String × String

/-- Of neighbours with one key only the last is kept. -/
def keepLast : List Keyed → List Keyed
  | [] => []
  | [last] => [last]
  | first :: second :: rest =>
      if first.1 = second.1 then keepLast (second :: rest)
      else first :: keepLast (second :: rest)

theorem keepLast_sublist (entries : List Keyed) : (keepLast entries).Sublist entries := by
  fun_induction keepLast entries with
  | case1 => exact List.Sublist.refl _
  | case2 last => exact List.Sublist.refl _
  | case3 first second rest same ih => exact List.Sublist.cons _ ih
  | case4 first second rest differ ih => exact List.Sublist.cons_cons _ ih

/-- Neighbours in order with equal keys removed are strictly in order. -/
theorem keepLast_pairwise {entries : List Keyed}
    (sorted : entries.Pairwise fun first second => first.1 ≤ second.1) :
    (keepLast entries).Pairwise fun first second => first.1 < second.1 := by
  fun_induction keepLast entries with
  | case1 => exact List.Pairwise.nil
  | case2 last => exact List.pairwise_singleton _ _
  | case3 first second rest same ih => exact ih (List.pairwise_cons.mp sorted).2
  | case4 first second rest differ ih =>
      have tail := (List.pairwise_cons.mp sorted).2
      refine List.pairwise_cons.mpr ⟨?_, ih tail⟩
      intro other member
      have least : second.1 ≤ other.1 := by
        have among := (keepLast_sublist (second :: rest)).mem member
        rcases List.mem_cons.mp among with same | later
        · exact same ▸ List.le_refl _
        · exact (List.pairwise_cons.mp tail).1 other later
      have below : first.1 ≤ second.1 := (List.pairwise_cons.mp sorted).1 second (by simp)
      apply Classical.byContradiction
      intro above
      have back : other.1 ≤ first.1 := List.not_lt.mp above
      exact differ (List.le_antisymm below (List.le_trans least back))

/-- Whether one key comes before another or is the same. -/
def precedes (first second : Keyed) : Bool := decide (first.1 ≤ second.1)

theorem precedes_trans (first second third : Keyed) (one : precedes first second = true)
    (two : precedes second third = true) : precedes first third = true := by
  simp only [precedes, decide_eq_true_eq] at one two ⊢
  exact List.le_trans one two

theorem precedes_total (first second : Keyed) :
    (precedes first second || precedes second first) = true := by
  simp only [precedes, Bool.or_eq_true, decide_eq_true_eq]
  exact List.le_total first.1 second.1

theorem sorted_by_key (entries : List Keyed) :
    (entries.mergeSort precedes).Pairwise fun first second => first.1 ≤ second.1 :=
  (List.pairwise_mergeSort precedes_trans precedes_total entries).imp (by simp [precedes])

end Attributes

/-- Attributes are texts under keys.  They are kept, listed and stored in the order of the bytes of
their keys, and a key occurs once. -/
structure Attributes where
  entries : List (String × String)
  ordered : entries.Pairwise fun first second =>
    Attributes.keyBytes first.1 < Attributes.keyBytes second.1

namespace Attributes

instance : Inhabited Attributes := ⟨⟨[], List.Pairwise.nil⟩⟩

/-- The attributes given by a list of keys and values in any order; of several values for one key
the last one counts. -/
def ofList (entries : List (String × String)) : Attributes :=
  let keyed := entries.map fun entry => (keyBytes entry.1, entry)
  let kept := keepLast (keyed.mergeSort precedes)
  { entries := kept.map (·.2)
    ordered := by
      have strict := keepLast_pairwise (sorted_by_key keyed)
      have tagged : ∀ entry ∈ kept, entry.1 = keyBytes entry.2.1 := by
        intro entry member
        have among := (keepLast_sublist _).mem member
        obtain ⟨given, _, same⟩ := List.mem_map.mp ((List.mergeSort_perm _ _).mem_iff.mp among)
        exact same ▸ rfl
      rw [List.pairwise_map]
      refine List.Pairwise.imp_of_mem ?_ strict
      intro first second inFirst inSecond below
      rw [← tagged first inFirst, ← tagged second inSecond]
      exact below }

/-- The value under a key. -/
def get? (attributes : Attributes) (key : String) : Option String :=
  (attributes.entries.find? fun entry => entry.1 = key).map (·.2)

end Attributes

/-! ### Headers -/

/-- What flushes and migrations carry over unchanged, but for the version. -/
structure Header where
  version : FormatVersion
  locale : String
  attributes : Attributes

namespace Header

instance : Inhabited Header := ⟨⟨.plain, "", default⟩⟩

/-- The value of an attribute, or a question mark. -/
def shown (header : Header) (key : String) : String :=
  (header.attributes.get? key).getD "?"

/-- A line that tells a dictionary from others. -/
def summary (header : Header) : String :=
  "dictionary = " ++ header.shown "dictionary" ++ " ; version = " ++ header.shown "version" ++
    " ; date = " ++ header.shown "date"

/-- The same header at another version. -/
def withVersion (header : Header) (version : FormatVersion) : Header :=
  { header with version := version }

end Header

end Lexicon

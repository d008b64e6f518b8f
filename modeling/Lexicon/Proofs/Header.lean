/-
Module: Lexicon.Proofs.Header
Layer: Proofs
Purpose: Which headers can be stored, that attributes which are in order are kept as they are, and
  that of several values for one key the last one is kept.
Imports: Lexicon.Header
Trusted boundary: none
Main exports: Header.Storable, Attributes.ofList_entries, Attributes.mem_of_ofList,
  Attributes.length_ofList_le, Attributes.get?_ofList
-/
import Lexicon.Header

namespace Lexicon

namespace Attributes

/-- Among entries with different keys nothing is dropped. -/
theorem keepLast_of_pairwise {entries : List Keyed}
    (strict : entries.Pairwise fun first second => first.1 < second.1) :
    keepLast entries = entries := by
  fun_induction keepLast entries with
  | case1 => rfl
  | case2 last => rfl
  | case3 first second rest same _ =>
      have less := (List.pairwise_cons.mp strict).1 second List.mem_cons_self
      rw [same] at less
      exact absurd less (List.lt_irrefl _)
  | case4 first second rest _ ih => rw [ih (List.pairwise_cons.mp strict).2]

/-- Attributes that are listed in order are the same attributes. -/
theorem ofList_entries (attributes : Attributes) : ofList attributes.entries = attributes := by
  obtain ⟨entries, ordered⟩ := attributes
  have strict : (entries.map fun entry => (keyBytes entry.1, entry)).Pairwise
      fun first second => first.1 < second.1 := List.pairwise_map.mpr ordered
  have sorted : (entries.map fun entry => (keyBytes entry.1, entry)).mergeSort precedes =
      entries.map fun entry => (keyBytes entry.1, entry) := by
    apply List.mergeSort_of_pairwise
    refine strict.imp ?_
    intro first second less
    simpa only [precedes, decide_eq_true_eq] using List.le_of_lt less
  simp only [ofList, mk.injEq]
  rw [sorted, keepLast_of_pairwise strict, List.map_map]
  exact List.map_id _

/-- Attributes that were listed strictly in order are kept as they were listed. -/
theorem entries_ofList {entries : List (String × String)}
    (ordered : entries.Pairwise fun first second => keyBytes first.1 < keyBytes second.1) :
    (ofList entries).entries = entries :=
  congrArg Attributes.entries (ofList_entries ⟨entries, ordered⟩)

/-- Sorting leaves the order of those with one key. -/
theorem filter_mergeSort (entries : List Keyed) (key : List UInt8) :
    (entries.mergeSort precedes).filter (fun entry => entry.1 = key) =
      entries.filter fun entry => entry.1 = key := by
  have alike : (entries.filter fun entry => entry.1 = key).Pairwise
      fun first second => precedes first second = true := by
    refine List.pairwise_iff_forall_sublist.mpr fun {first second} pair => ?_
    have one := (List.mem_filter.mp (pair.mem List.mem_cons_self)).2
    have two := (List.mem_filter.mp (pair.mem (List.mem_cons_of_mem _ List.mem_cons_self))).2
    simp only [decide_eq_true_eq] at one two
    simp only [precedes, one, two, decide_eq_true_eq]
    exact List.le_refl key
  have among := List.sublist_mergeSort precedes_trans precedes_total alike List.filter_sublist
  have again := among.filter fun entry => decide (entry.1 = key)
  simp only [List.filter_filter, Bool.and_self] at again
  refine (again.eq_of_length ?_).symm
  exact ((List.mergeSort_perm entries precedes).filter _).length_eq.symm

/-- Of neighbours with one key the last is found. -/
theorem find?_keepLast {entries : List Keyed} (key : List UInt8)
    (sorted : entries.Pairwise fun first second => first.1 ≤ second.1) :
    (keepLast entries).find? (fun entry => entry.1 = key) =
      (entries.filter fun entry => entry.1 = key).getLast? := by
  fun_induction keepLast entries with
  | case1 => rfl
  | case2 last => by_cases here : last.1 = key <;> simp [here]
  | case3 first second rest same ih =>
      rw [ih (List.pairwise_cons.mp sorted).2]
      by_cases here : second.1 = key
      · simp [here, same]
      · simp [here, same]
  | case4 first second rest differ ih =>
      obtain ⟨below, tail⟩ := List.pairwise_cons.mp sorted
      by_cases here : first.1 = key
      · have others : (second :: rest).filter (fun entry => entry.1 = key) = [] := by
          refine List.filter_eq_nil_iff.mpr fun other among => ?_
          have least : second.1 ≤ other.1 := by
            rcases List.mem_cons.mp among with rfl | later
            · exact List.le_refl _
            · exact (List.pairwise_cons.mp tail).1 other later
          rw [decide_eq_true_eq]
          rintro rfl
          exact differ (List.le_antisymm (below second List.mem_cons_self) (here ▸ least))
        rw [List.find?_cons_of_pos (by simpa using here),
          List.filter_cons_of_pos (by simpa using here), others, List.getLast?_singleton]
      · rw [List.find?_cons_of_neg (by simpa using here),
          List.filter_cons_of_neg (by simpa using here), ih tail]

/-- Nothing is added to what was listed. -/
theorem mem_of_ofList {entries : List (String × String)} {entry : String × String}
    (member : entry ∈ (ofList entries).entries) : entry ∈ entries := by
  obtain ⟨tagged, kept, rfl⟩ := List.mem_map.mp member
  have among := (keepLast_sublist _).mem kept
  obtain ⟨given, listed, rfl⟩ := List.mem_map.mp ((List.mergeSort_perm _ _).mem_iff.mp among)
  exact listed

theorem length_ofList_le (entries : List (String × String)) :
    (ofList entries).entries.length ≤ entries.length := by
  have kept := (keepLast_sublist
    ((entries.map fun entry => (keyBytes entry.1, entry)).mergeSort precedes)).length_le
  rw [List.length_mergeSort, List.length_map] at kept
  simpa only [ofList, List.length_map] using kept

/-- The value under a key is the last one that was listed for it. -/
theorem get?_ofList (entries : List (String × String)) (key : String) :
    (ofList entries).get? key =
      ((entries.filter fun entry => entry.1 = key).getLast?).map (·.2) := by
  let keyed := entries.map fun entry => (keyBytes entry.1, entry)
  have tagged : ∀ entry ∈ keepLast (keyed.mergeSort precedes),
      (entry.2.1 = key) = (entry.1 = keyBytes key) := by
    intro entry kept
    have among := (List.mergeSort_perm _ _).mem_iff.mp ((keepLast_sublist _).mem kept)
    obtain ⟨given, _, rfl⟩ := List.mem_map.mp among
    exact propext ⟨congrArg keyBytes, keyBytes_inj⟩
  have found : (ofList entries).entries.find? (fun entry => entry.1 = key) =
      ((keyed.filter fun entry => entry.1 = keyBytes key).getLast?).map (·.2) := by
    rw [← filter_mergeSort, ← find?_keepLast _ (sorted_by_key keyed)]
    show ((keepLast (keyed.mergeSort precedes)).map (·.2)).find? _ = _
    rw [List.find?_map, ← List.head?_filter, ← List.head?_filter]
    refine congrArg (fun found => (List.head? found).map _) (List.filter_congr fun entry kept => ?_)
    simp only [Function.comp_apply, tagged entry kept]
  have plain : keyed.filter (fun entry => entry.1 = keyBytes key) =
      (entries.filter fun entry => entry.1 = key).map fun entry => (keyBytes entry.1, entry) := by
    rw [List.filter_map]
    refine congrArg (List.map _) (List.filter_congr fun entry _ => ?_)
    simp only [Function.comp_apply]
    exact decide_eq_decide.mpr ⟨keyBytes_inj, congrArg keyBytes⟩
  rw [get?, found, plain, List.getLast?_map, Option.map_map, Option.map_map]
  rfl

end Attributes

namespace Header

/-- The most bytes of a text, and the most attributes, that a header is stored with. -/
def limit : Nat := 65535

/-- The texts of a header, and the number of its attributes, fit what is stored of their size. -/
structure Storable (header : Header) : Prop where
  locale : header.locale.toUTF8.size ≤ limit
  few : header.attributes.entries.length ≤ limit
  key : ∀ entry ∈ header.attributes.entries, entry.1.toUTF8.size ≤ limit
  value : ∀ entry ∈ header.attributes.entries, entry.2.toUTF8.size ≤ limit

end Header

end Lexicon

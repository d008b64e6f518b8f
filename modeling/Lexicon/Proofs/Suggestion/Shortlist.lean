/-
Module: Lexicon.Proofs.Suggestion.Shortlist
Layer: Proofs
Purpose: A shortlist holds the best of all candidates that were ever added to it, although it forgets
  the others at once; and the place of a candidate can be found by halving the list.
Imports: Lexicon.Suggestion.Shortlist, Mathlib.Data.List.Induction, Mathlib.Data.List.Sort
Trusted boundary: none
Main exports: Candidate.leads, Shortlist.addAll, Shortlist.ranking, Shortlist.halve,
  Shortlist.addHalving, Shortlist.candidates_addAll
-/
import Lexicon.Suggestion.Shortlist
import Mathlib.Data.List.Induction
import Mathlib.Data.List.Sort

namespace Lexicon

/-- Whether a candidate keeps its place before another one: its score is no worse. -/
def Candidate.leads (first second : Candidate) : Bool := first.score ≥ second.score

namespace Shortlist

/-! ### All candidates in order -/

/-- Adds candidates one after the other. -/
def addAll (shortlist : Shortlist) (added : List Candidate) : Shortlist :=
  added.foldl add shortlist

/-- Candidates from the best score to the worst, those with the same score in the order in which they
were added. -/
def ranking (added : List Candidate) : List Candidate := added.mergeSort Candidate.leads

theorem leads_trans (first second third : Candidate) (one : first.leads second = true)
    (two : second.leads third = true) : first.leads third = true := by
  simp only [Candidate.leads, ge_iff_le, decide_eq_true_eq] at one two ⊢
  omega

theorem leads_total (first second : Candidate) :
    (first.leads second || second.leads first) = true := by
  simp only [Candidate.leads, ge_iff_le, Bool.or_eq_true, decide_eq_true_eq]
  omega

/-- A ranking goes from better to worse. -/
theorem pairwise_ranking (added : List Candidate) :
    (ranking added).Pairwise fun first second => first.leads second = true :=
  List.pairwise_mergeSort leads_trans leads_total added

/-- A ranking keeps candidates with the same score in the order in which they were added. -/
theorem filter_ranking (score : Int) (added : List Candidate) :
    (ranking added).filter (·.score = score) = added.filter (·.score = score) := by
  have even : (added.filter (·.score = score)).Pairwise
      fun first second => first.leads second = true := by
    refine List.pairwise_of_forall_mem_list fun first one second two => ?_
    rw [List.mem_filter, decide_eq_true_eq] at one two
    simp only [Candidate.leads, one.2, two.2, ge_iff_le, Int.le_refl, decide_true]
  have inside : (added.filter (·.score = score)).Sublist (ranking added) :=
    List.sublist_mergeSort leads_trans leads_total even List.filter_sublist
  have kept := inside.filter (fun candidate => decide (candidate.score = score))
  rw [List.filter_filter] at kept
  simp only [Bool.and_self] at kept
  exact (kept.eq_of_length ((List.mergeSort_perm added Candidate.leads).filter _).length_eq.symm).symm

/-- The first of the candidates that were added goes before all that it is not worse than. -/
theorem ranking_cons (candidate : Candidate) (added : List Candidate) :
    ranking (candidate :: added) =
      (ranking added).orderedInsert (fun first second => first.leads second = true) candidate := by
  obtain ⟨better, others, here, there, ahead⟩ :=
    List.mergeSort_cons leads_trans leads_total candidate added
  have ordered := pairwise_ranking (candidate :: added)
  rw [ranking, here] at ordered ⊢
  rw [ranking, there]
  clear here there
  induction better with
  | nil =>
      cases others with
      | nil => rfl
      | cons next others =>
          have leads := List.rel_of_pairwise_cons ordered List.mem_cons_self
          exact (List.orderedInsert_cons_of_le _ others leads).symm
  | cons first better ih =>
      have behind := ahead first List.mem_cons_self
      rw [Bool.not_eq_true'] at behind
      rw [List.cons_append, List.cons_append,
        List.orderedInsert_of_not_le _ _ (by rw [behind]; exact Bool.false_ne_true),
        ih (fun other among => ahead other (List.mem_cons_of_mem _ among))
          (List.pairwise_cons.mp ordered).2]

/-- Of two candidates, the one added before all others and the one added behind them, it does not
matter which is put in first. -/
theorem insert_orderedInsert (early late : Candidate) (candidates : List Candidate) :
    insert late
        (candidates.orderedInsert (fun first second => first.leads second = true) early) =
      (insert late candidates).orderedInsert
        (fun first second => first.leads second = true) early := by
  induction candidates with
  | nil =>
      simp only [List.orderedInsert_nil, insert, List.orderedInsert_cons, Candidate.leads,
        decide_eq_true_eq]
  | cons first others ih =>
      simp only [List.orderedInsert_cons, insert, Candidate.leads, decide_eq_true_eq] at ih ⊢
      by_cases ahead : early.score ≥ first.score
      · by_cases stays : first.score ≥ late.score
        · have before : early.score ≥ late.score := by omega
          simp only [ahead, stays, before, insert, if_true, List.orderedInsert_cons]
        · simp only [ahead, stays, insert, if_true, if_false, List.orderedInsert_cons]
      · by_cases stays : first.score ≥ late.score
        · simp only [ahead, stays, insert, if_true, if_false, List.orderedInsert_cons, ih]
        · have behind : ¬ early.score ≥ late.score := by omega
          simp only [ahead, stays, behind, insert, if_false, List.orderedInsert_cons]

/-- Putting a candidate behind those that are at least as good keeps a ranking up to date. -/
theorem ranking_concat (added : List Candidate) (candidate : Candidate) :
    ranking (added ++ [candidate]) = insert candidate (ranking added) := by
  induction added with
  | nil =>
      rw [List.nil_append, ranking_cons]
      simp only [ranking, List.mergeSort_nil, List.orderedInsert_nil, insert]
  | cons first others ih =>
      rw [List.cons_append, ranking_cons, ih, ranking_cons, insert_orderedInsert]

/-! ### What drops out stays out -/

/-- Where a candidate ends up among the first ones depends on these alone. -/
theorem take_insert_take (limit : Nat) (candidate : Candidate) (candidates : List Candidate) :
    (insert candidate (candidates.take limit)).take limit =
      (insert candidate candidates).take limit := by
  induction candidates generalizing limit with
  | nil => rw [List.take_nil]
  | cons first others ih =>
      cases limit with
      | zero => rfl
      | succ limit =>
          rw [List.take_succ_cons, insert, insert]
          split
          next => rw [List.take_succ_cons, List.take_succ_cons, ih]
          next =>
            rw [List.take_succ_cons, List.take_succ_cons]
            cases limit with
            | zero => rfl
            | succ limit =>
                rw [List.take_succ_cons, List.take_succ_cons, List.take_take,
                  Nat.min_eq_left (Nat.le_succ limit)]

/-- A shortlist without candidates takes up the best of those that are added. -/
theorem addAll_clear (shortlist : Shortlist) (added : List Candidate) :
    shortlist.clear.addAll added =
      { shortlist with candidates := (ranking added).take shortlist.limit } := by
  induction added using List.reverseRecOn with
  | nil => simp only [addAll, clear, ranking, List.foldl_nil, List.mergeSort_nil, List.take_nil]
  | append_singleton added candidate ih =>
      rw [addAll, List.foldl_concat, ← addAll, ih, add]
      dsimp only
      rw [take_insert_take, ranking_concat]

/-- The candidates that are left are their own ranking. -/
theorem ranking_take_ranking (limit : Nat) (added : List Candidate) :
    ranking ((ranking added).take limit) = (ranking added).take limit :=
  List.mergeSort_of_pairwise ((pairwise_ranking added).sublist (List.take_sublist _ _))

/-- Candidates that drop out are not missed later: whoever goes on with those that are left gets
the best of all. -/
theorem take_ranking_survivors (limit : Nat) (first second : List Candidate) :
    (ranking ((ranking first).take limit ++ second)).take limit =
      (ranking (first ++ second)).take limit := by
  induction second using List.reverseRecOn with
  | nil =>
      rw [List.append_nil, List.append_nil, ranking_take_ranking, List.take_take, Nat.min_self]
  | append_singleton second candidate ih =>
      rw [← List.append_assoc, ← List.append_assoc, ranking_concat, ranking_concat,
        ← take_insert_take, ih, take_insert_take]

/-! ### Places found by halving -/

/-- The number of candidates at the front of a list that have a property, found by looking at the
middle of what is left. -/
def halve (holds : Candidate → Bool) (candidates : List Candidate) (low high : Nat) : Nat :=
  if low < high then
    if (candidates[(low + high) / 2]?).any holds then
      halve holds candidates ((low + high) / 2 + 1) high
    else halve holds candidates low ((low + high) / 2)
  else low
termination_by high - low

/-- Adds a candidate at the place that halving finds.  Whoever has no place is not added, and the last
candidate makes room where the list is full. -/
def addHalving (shortlist : Shortlist) (candidate : Candidate) : Shortlist :=
  let candidates := shortlist.candidates
  let place := halve (·.leads candidate) candidates 0 candidates.length
  if shortlist.limit = 0 || place ≥ shortlist.limit then shortlist
  else
    let kept := if candidates.length = shortlist.limit then candidates.dropLast else candidates
    { shortlist with candidates := kept.insertIdx place candidate }

/-- Halving finds the place up to which a property holds. -/
theorem halve_eq {holds : Candidate → Bool} {candidates : List Candidate} {place : Nat}
    (partitioned : ∀ index, (candidates[index]?).any holds = decide (index < place))
    (low high : Nat) (above : low ≤ place) (below : place ≤ high) :
    halve holds candidates low high = place := by
  fun_induction halve holds candidates low high with
  | case1 low high apart front ih =>
      rw [partitioned, decide_eq_true_eq] at front
      exact ih (by omega) below
  | case2 low high apart back ih =>
      rw [partitioned, decide_eq_true_eq] at back
      exact ih above (by omega)
  | case3 low high met => omega

/-- In a list from better to worse, those that a candidate has to stand behind are at the front. -/
theorem any_leads_eq {candidates : List Candidate}
    (ordered : candidates.Pairwise fun first second => first.leads second = true)
    (candidate : Candidate) (index : Nat) :
    (candidates[index]?).any (·.leads candidate) =
      decide (index < (candidates.takeWhile (·.leads candidate)).length) := by
  induction candidates generalizing index with
  | nil => rfl
  | cons first others ih =>
      rw [List.takeWhile_cons]
      cases leads : first.leads candidate with
      | true =>
          cases index with
          | zero => simp [leads]
          | succ index => simpa using ih (List.pairwise_cons.mp ordered).2 index
      | false =>
          cases index with
          | zero => simp [leads]
          | succ index =>
              -- Whoever is behind a worse one is worse still.
              have behind : (others[index]?).any (·.leads candidate) = false := by
                cases found : others[index]? with
                | none => rfl
                | some other =>
                    have worse := List.rel_of_pairwise_cons ordered (List.mem_of_getElem? found)
                    simp only [Candidate.leads, ge_iff_le, decide_eq_true_eq,
                      decide_eq_false_iff_not] at worse leads
                    simp only [Option.any_some, Candidate.leads, ge_iff_le,
                      decide_eq_false_iff_not]
                    omega
              simpa using behind

/-- Whoever is put in stands right behind those that are at least as good. -/
theorem insert_eq (candidate : Candidate) (candidates : List Candidate) :
    insert candidate candidates =
      candidates.insertIdx (candidates.takeWhile (·.leads candidate)).length candidate := by
  induction candidates with
  | nil => rfl
  | cons first others ih =>
      rw [insert, List.takeWhile_cons, Candidate.leads]
      split
      next ahead =>
        simp only [ahead, decide_true, if_true, List.length_cons, List.insertIdx_succ_cons]
        rw [ih]
      next behind =>
        simp only [behind, decide_false, Bool.false_eq_true, if_false, List.length_nil,
          List.insertIdx_zero]

/-- Taking the last candidate away makes the same room before as after. -/
theorem insertIdx_dropLast (candidate : Candidate) :
    ∀ {candidates : List Candidate} {place : Nat}, place < candidates.length →
      candidates.dropLast.insertIdx place candidate =
        (candidates.insertIdx place candidate).take candidates.length
  | [only], 0, _ => rfl
  | first :: second :: others, 0, _ => by
      rw [List.insertIdx_zero, List.insertIdx_zero, List.dropLast_eq_take]
      rfl
  | first :: second :: others, place + 1, inside => by
      rw [List.dropLast_cons_cons, List.insertIdx_succ_cons, List.insertIdx_succ_cons,
        List.length_cons, List.take_succ_cons, insertIdx_dropLast candidate (by simpa using inside)]

/-- On lists from better to worse that keep to the limit, halving puts candidates where they
belong. -/
theorem addHalving_eq {shortlist : Shortlist}
    (ordered : shortlist.candidates.Pairwise fun first second => first.leads second = true)
    (few : shortlist.candidates.length ≤ shortlist.limit) (candidate : Candidate) :
    shortlist.addHalving candidate = shortlist.add candidate := by
  have place := halve_eq (any_leads_eq ordered candidate) 0 shortlist.candidates.length
    (Nat.zero_le _) (List.takeWhile_sublist _).length_le
  have inside : (shortlist.candidates.takeWhile (·.leads candidate)).length ≤
      shortlist.candidates.length := (List.takeWhile_sublist _).length_le
  rw [addHalving, add, insert_eq]
  simp only [place]
  generalize (shortlist.candidates.takeWhile (·.leads candidate)).length = front at inside ⊢
  rcases shortlist with ⟨limit, candidates⟩
  dsimp only at few inside ⊢
  split
  next none =>
    -- the front takes up the whole limit
    have all : front = candidates.length ∧ candidates.length = limit := by
      simp only [Bool.or_eq_true, decide_eq_true_eq] at none
      omega
    rw [all.1, List.insertIdx_length_self, ← all.2, List.take_left]
  next some =>
    simp only [Bool.or_eq_true, decide_eq_true_eq, not_or, Nat.not_le] at some
    split
    next full =>
      rw [insertIdx_dropLast candidate (by omega), full]
    next free =>
      rw [List.take_of_length_le]
      rw [List.length_insertIdx_of_le_length inside]
      omega

/-- Whatever is added to a shortlist that was just made or cleared, and whether places are found by
halving or by going through it, it holds the first of all candidates in the order of their scores,
equal ones as they were added.  So it may be cut short at any point: to go on with what is left gives
the same as to start from all that was added. -/
theorem candidates_addAll (shortlist : Shortlist) (added : List Candidate) :
    (shortlist.clear.addAll added).candidates = (ranking added).take shortlist.limit ∧
      ((new shortlist.limit).addAll added).candidates =
        (ranking added).take shortlist.limit ∧
      added.foldl addHalving shortlist.clear = shortlist.clear.addAll added ∧
      (ranking added).Perm added ∧
      (ranking added).Pairwise (fun first second => first.score ≥ second.score) ∧
      (∀ score : Int,
        (ranking added).filter (·.score = score) = added.filter (·.score = score)) ∧
      ∀ point,
        (shortlist.clear.addAll (added.take point)).addAll (added.drop point) =
          shortlist.clear.addAll added ∧
        shortlist.clear.addAll
            ((shortlist.clear.addAll (added.take point)).candidates ++ added.drop point) =
          shortlist.clear.addAll added := by
  have best := shortlist.addAll_clear
  refine ⟨by rw [best], ?_, ?_, List.mergeSort_perm _ _, ?_, fun score => filter_ranking score added,
    fun point => ⟨?_, ?_⟩⟩
  · exact congrArg (·.candidates) ((new shortlist.limit).addAll_clear added)
  · induction added using List.reverseRecOn with
    | nil => rfl
    | append_singleton added candidate ih =>
        -- Halving finds the place, since the candidates so far are in order.
        rw [List.foldl_concat, ih, addAll, addAll, List.foldl_concat, ← addAll]
        refine addHalving_eq ?_ ?_ candidate
        · rw [best]
          exact (pairwise_ranking added).sublist (List.take_sublist _ _)
        · rw [best]
          exact List.length_take_le _ _
  · exact (pairwise_ranking added).imp fun leads => of_decide_eq_true leads
  · rw [addAll, addAll, addAll, ← List.foldl_append, List.take_append_drop]
  · rw [best, best, best, take_ranking_survivors, List.take_append_drop]

end Shortlist

end Lexicon

import DiceTray.Hand.Keep
import Mathlib.Data.List.Nodup
import Mathlib.Data.List.Perm.Basic

namespace DiceTray

section

variable {α : Type} {l : List α} {k : Nat}

theorem countP_eq_of_pairwise {before : α → α → Bool}
    (hl : l.Pairwise fun a b => before a b = true ∧ before b a = false)
    (hirrefl : ∀ a, before a a = false) {x : α} (hx : l[k]? = some x) :
    l.countP (fun a => before a x) = k := by
  induction l generalizing k with
  | nil => cases hx
  | cons a l ih =>
      obtain ⟨ha, hl⟩ := List.pairwise_cons.mp hl
      cases k with
      | zero =>
          cases hx
          rw [List.countP_cons_of_neg (by simp [hirrefl]), List.countP_eq_zero]
          intro b hb
          simp [(ha b hb).2]
      | succ k =>
          rw [List.getElem?_cons_succ] at hx
          rw [List.countP_cons, ih hl hx, if_pos (ha x (List.mem_of_getElem? hx)).1]

theorem map_fst_mergeSort_zipIdx {l : List Nat} {n : Nat} (hl : l.Perm (List.range n)) :
    (l.zipIdx.mergeSort fun a b => a.1 ≤ b.1).map Prod.fst = List.range n := by
  have hsorted : (l.zipIdx.mergeSort fun a b => a.1 ≤ b.1).Pairwise
      fun a b => decide (a.1 ≤ b.1) = true := by
    refine List.pairwise_mergeSort (fun a b c hab hbc => ?_) (fun a b => ?_) l.zipIdx
    · rw [decide_eq_true_iff] at hab hbc ⊢
      exact Nat.le_trans hab hbc
    · rw [Bool.or_eq_true, decide_eq_true_iff, decide_eq_true_iff]
      exact Nat.le_total a.1 b.1
  have hperm := (List.mergeSort_perm l.zipIdx fun a b => a.1 ≤ b.1).map Prod.fst
  rw [List.zipIdx_map_fst] at hperm
  refine List.Perm.eq_of_pairwise (fun a b _ _ => Nat.le_antisymm) ?_ List.pairwise_le_range
    (hperm.trans hl)
  exact List.pairwise_map.mpr (hsorted.imp fun h => of_decide_eq_true h)

theorem getElem?_mergeSort_zipIdx {l : List Nat} {n i : Nat} (hl : l.Perm (List.range n))
    (hk : l[k]? = some i) :
    (l.zipIdx.mergeSort fun a b => a.1 ≤ b.1)[i]? = some (i, k) := by
  have hmem := (List.mergeSort_perm l.zipIdx fun a b => a.1 ≤ b.1).symm.subset
    (List.mem_zipIdx_iff_getElem?.mpr hk : (i, k) ∈ l.zipIdx)
  obtain ⟨j, hj⟩ := List.mem_iff_getElem?.mp hmem
  have hfst := congrArg (·[j]?) (map_fst_mergeSort_zipIdx hl)
  simp only [List.getElem?_map, hj, Option.map_some] at hfst
  obtain ⟨_, hji⟩ := List.getElem?_eq_some_iff.mp hfst.symm
  rw [List.getElem_range] at hji
  rw [← hji]
  rwa [hji] at hj ⊢

end

namespace Hand

variable {vs : List Int64} {a b c : Int64 × Nat}

def precedes (a b : Int64 × Nat) : Bool := b.1 < a.1 || (a.1 == b.1 && a.2 < b.2)

def rank (vs : List Int64) (i : Nat) (v : Int64) : Nat :=
  vs.zipIdx.countP fun w => precedes w (v, i)

theorem outranks_iff : outranks a b = true ↔
    b.1.toInt < a.1.toInt ∨ (a.1.toInt = b.1.toInt ∧ a.2 ≤ b.2) := by
  simp [outranks, Int64.lt_iff_toInt_lt, Int64.toInt_inj]

theorem precedes_iff : precedes a b = true ↔
    b.1.toInt < a.1.toInt ∨ (a.1.toInt = b.1.toInt ∧ a.2 < b.2) := by
  simp [precedes, Int64.lt_iff_toInt_lt, Int64.toInt_inj]

theorem precedes_irrefl (a : Int64 × Nat) : precedes a a = false := by
  simp [precedes]

theorem precedes_of_outranks (h : outranks a b = true) (hne : a.2 ≠ b.2) :
    precedes a b = true ∧ precedes b a = false := by
  rw [outranks_iff] at h
  rw [← Bool.not_eq_true, precedes_iff, precedes_iff]
  omega

theorem pairwise_precedes (vs : List Int64) :
    (vs.zipIdx.mergeSort outranks).Pairwise fun a b =>
      precedes a b = true ∧ precedes b a = false := by
  have hsorted : (vs.zipIdx.mergeSort outranks).Pairwise fun a b => outranks a b = true := by
    refine List.pairwise_mergeSort (fun a b c hab hbc => ?_) (fun a b => ?_) vs.zipIdx
    · rw [outranks_iff] at hab hbc ⊢
      omega
    · rw [Bool.or_eq_true, outranks_iff, outranks_iff]
      omega
  have hnodup : (vs.zipIdx.mergeSort outranks).Pairwise fun a b => a.2 ≠ b.2 := by
    refine List.pairwise_map.mp (((List.mergeSort_perm ..).map Prod.snd).nodup_iff.mpr ?_)
    rw [List.zipIdx_map_snd]
    exact List.nodup_range'
  exact (hsorted.and hnodup).imp fun h => precedes_of_outranks h.1 h.2

theorem ranking_perm (vs : List Int64) : (ranking vs).Perm (List.range vs.length) := by
  have hperm := (List.mergeSort_perm vs.zipIdx outranks).map Prod.snd
  rwa [List.zipIdx_map_snd, ← List.range_eq_range'] at hperm

theorem ranks_perm (vs : List Int64) : (ranks vs).Perm (List.range vs.length) := by
  have hperm := (List.mergeSort_perm (ranking vs).zipIdx fun a b => a.1 ≤ b.1).map Prod.snd
  rwa [List.zipIdx_map_snd, ← List.range_eq_range', length_ranking] at hperm

theorem getElem?_ranking {i : Nat} {v : Int64} (h : vs[i]? = some v) :
    (ranking vs)[rank vs i v]? = some i := by
  have hperm := List.mergeSort_perm vs.zipIdx outranks
  have hmem := hperm.symm.subset
    (List.mem_zipIdx_iff_getElem?.mpr h : (v, i) ∈ vs.zipIdx)
  obtain ⟨k, hk⟩ := List.mem_iff_getElem?.mp hmem
  have hrank : rank vs i v = k :=
    (hperm.countP_eq _).symm.trans
      (countP_eq_of_pairwise (pairwise_precedes vs) precedes_irrefl hk)
  rw [hrank, ranking, List.getElem?_map, hk]
  rfl

theorem getElem?_ranks {i : Nat} {v : Int64} (h : vs[i]? = some v) :
    (ranks vs)[i]? = some (rank vs i v) := by
  rw [ranks, List.getElem?_map, getElem?_mergeSort_zipIdx (ranking_perm vs) (getElem?_ranking h)]
  rfl

end Hand

end DiceTray

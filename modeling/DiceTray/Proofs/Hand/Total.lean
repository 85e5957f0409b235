import DiceTray.Hand
import DiceTray.Proofs.Number.Zero

namespace DiceTray

namespace Number

theorem exists_foldl_add_real (ns : List Number) (x : Float) :
    ∃ y, ns.foldl add (.real x) = .real y := by
  induction ns generalizing x with
  | nil => exact ⟨x, rfl⟩
  | cons n ns ih => exact ih (x + n.toReal)

end Number

namespace Hand

def usable (h : Hand) : List Int := (h.filter Die.counts).map fun d => d.value.toInt

theorem usable_cons_of_counts {d : Die} (h : d.counts = true) (ds : Hand) :
    usable (d :: ds) = d.value.toInt :: usable ds := by
  simp [usable, h]

theorem usable_cons_of_not_counts {d : Die} (h : d.counts = false) (ds : Hand) :
    usable (d :: ds) = usable ds := by
  simp [usable, h]

theorem usable_append (g h : Hand) : usable (g ++ h) = usable g ++ usable h := by
  simp [usable]

theorem usable_filter (q : Int → Bool) (h : Hand) :
    usable (h.filter fun d => q d.value.toInt) = (usable h).filter q := by
  simp only [usable, List.filter_filter, List.filter_map, Function.comp_def, Bool.and_comm]

theorem usable_perm {g h : Hand} (hg : g.Perm h) : (usable g).Perm (usable h) :=
  (hg.filter _).map _

theorem length_usable_le (h : Hand) : (usable h).length ≤ h.length := by
  rw [usable, List.length_map]
  exact List.length_filter_le ..

theorem sum_usable_cons (d : Die) (ds : Hand) :
    (usable (d :: ds)).sum = d.total.toInt + (usable ds).sum := by
  cases hd : d.counts with
  | false => simp [usable_cons_of_not_counts hd, Die.total, hd]
  | true => simp [usable_cons_of_counts hd, Die.total, hd]

theorem foldl_add_total_eq_int_iff (h : Hand) {a v : Int64} :
    (h.map fun d => Number.int d.total).foldl Number.add (.int a) = .int v ↔
      (∀ k, Fits (a.toInt + ((usable h).take k).sum)) ∧ v.toInt = a.toInt + (usable h).sum := by
  induction h generalizing a with
  | nil =>
      have hfits := fits_toInt a
      simp [usable, hfits, Int64.toInt_inj, eq_comm]
  | cons d ds ih =>
      cases hd : d.counts with
      | false =>
          have htotal : d.total = 0 := by simp [Die.total, hd]
          rw [List.map_cons, List.foldl_cons, htotal, Number.add_int_zero,
            usable_cons_of_not_counts hd]
          exact ih
      | true =>
          have htotal : d.total = d.value := by simp [Die.total, hd]
          rw [List.map_cons, List.foldl_cons, htotal, usable_cons_of_counts hd]
          cases hadd : Number.add (.int a) (.int d.value) with
          | int b =>
              have hb : b.toInt = a.toInt + d.value.toInt := by
                have hsum := Number.exactly_eq_int_iff.mp hadd
                simpa using hsum.symm
              rw [ih, hb, List.sum_cons, Int.add_assoc]
              refine and_congr_left' ⟨fun hfit k => ?_, fun hfit k => ?_⟩
              · cases k with
                | zero => simpa using fits_toInt a
                | succ k => simpa [Int.add_assoc] using hfit k
              · simpa [Int.add_assoc] using hfit (k + 1)
          | real x =>
              obtain ⟨y, hy⟩ := Number.exists_foldl_add_real
                (ds.map fun d => Number.int d.total) x
              rw [hy]
              simp only [reduceCtorEq, false_iff, not_and]
              intro hfit
              have hone : Fits (a.toInt + d.value.toInt) := by simpa using hfit 1
              have hint : Number.add (.int a) (.int d.value) =
                  .int (Int64.ofInt (a.toInt + d.value.toInt)) :=
                Number.exactly_eq_int_iff.mpr (congrArg some (toInt_ofInt hone).symm)
              rw [hint] at hadd
              cases hadd

theorem result_eq_int_iff (h : Hand) {v : Int64} :
    h.result = .int v ↔
      (∀ k, Fits ((usable h).take k).sum) ∧ v.toInt = (usable h).sum := by
  rw [result, Number.sum, Number.zero, foldl_add_total_eq_int_iff]
  simp

theorem foldl_add_total_eq_foldl_add (h : Hand) {a : Number} (ha : a.Settled) :
    (h.map fun d => Number.int d.total).foldl Number.add a =
      ((h.filter Die.counts).map fun d => Number.int d.value).foldl Number.add a := by
  induction h generalizing a with
  | nil => rfl
  | cons d ds ih =>
      cases hd : d.counts with
      | false =>
          have htotal : d.total = 0 := by simp [Die.total, hd]
          rw [List.map_cons, List.foldl_cons, htotal, Number.add_zero_of_settled ha,
            List.filter_cons_of_neg (by simp [hd])]
          exact ih ha
      | true =>
          have htotal : d.total = d.value := by simp [Die.total, hd]
          rw [List.map_cons, List.foldl_cons, htotal, List.filter_cons_of_pos hd]
          exact ih (Number.settled_add_int ha d.value)

theorem result_eq_sum_counts (h : Hand) :
    h.result = Number.sum ((h.filter Die.counts).map fun d => .int d.value) :=
  foldl_add_total_eq_foldl_add h trivial

end Hand

end DiceTray

import DiceTray.Proofs.Hand.Ranked
import DiceTray.Proofs.Hand.Total
import DiceTray.Proofs.Pool.Since
import Mathlib.Algebra.Order.BigOperators.Group.List

namespace DiceTray

namespace Die

variable {conditions : List Condition} {d : Die}

def fails (conditions : List Condition) (d : Die) : Bool :=
  (conditions.find? Condition.isNegate).any fun c => toDouble d.value == c.bound

def succeeds (conditions : List Condition) (d : Die) : Bool :=
  !d.fails conditions && conditions.any fun c => c.holds (.int d.value)

inductive Judged (conditions : List Condition) (d : Die) : Die → Prop where
  | failure (h : d.fails conditions = true) :
      Judged conditions d { d with value := -1, marks := d.marks.add .failure }
  | success (h : d.succeeds conditions = true) :
      Judged conditions d { d with value := 1, marks := d.marks.add .success }
  | neither (hf : d.fails conditions = false) (hs : d.succeeds conditions = false) :
      Judged conditions d { d with counts := false }

theorem isFailure_eq (conditions : List Condition) (d : Die) :
    Hand.isFailure conditions d.value = d.fails conditions := by
  unfold Hand.isFailure Hand.failure? fails
  cases conditions.find? Condition.isNegate <;> rfl

theorem judged_judge (conditions : List Condition) (d : Die) :
    Judged conditions d (Hand.judge conditions d) := by
  unfold Hand.judge
  rw [isFailure_eq]
  split
  case isTrue hf => exact .failure hf
  case isFalse hf =>
      rw [Bool.not_eq_true] at hf
      have hs : d.succeeds conditions = anyHolds conditions (.int d.value) := by
        rw [succeeds, hf]
        rfl
      split
      case isTrue h => exact .success (hs.trans h)
      case isFalse h => exact .neither hf (hs.trans (Bool.not_eq_true _ ▸ h))

theorem not_fails_of_succeeds (h : d.succeeds conditions = true) : d.fails conditions = false := by
  rw [succeeds, Bool.and_eq_true, Bool.not_eq_true'] at h
  exact h.1

theorem Judged.verdict {e : Die} (h : Judged conditions d e)
    (hs : .success ∉ d.marks.toList) (hf : .failure ∉ d.marks.toList) :
    e.value = -1 ∧ e.marks.has .failure = true ∧ e.marks.has .success = false ∨
      e.value = 1 ∧ e.marks.has .success = true ∧ e.marks.has .failure = false ∨
      e.counts = false ∧ e.marks.has .success = false ∧ e.marks.has .failure = false := by
  cases h with
  | failure => exact .inl ⟨rfl, by simp [Marks.has, Marks.mem_add, hs]⟩
  | success => exact .inr (.inl ⟨rfl, by simp [Marks.has, Marks.mem_add, hf]⟩)
  | neither => exact .inr (.inr ⟨rfl, by simp [Marks.has, hs, hf]⟩)

theorem Judged.toInt_total {e : Die} (h : Judged conditions d e) :
    e.total.toInt = (if (d.counts && d.succeeds conditions) = true then 1 else 0) -
      if (d.counts && d.fails conditions) = true then 1 else 0 := by
  cases h with
  | failure hf =>
      have hs : d.succeeds conditions = false := by simp [succeeds, hf]
      rw [hf, hs, total]
      cases d.counts <;> rfl
  | success hs =>
      rw [hs, not_fails_of_succeeds hs, total]
      cases d.counts <;> rfl
  | neither hf hs =>
      rw [hf, hs, total]
      cases d.counts <;> rfl

end Die

namespace Hand

variable {conditions : List Condition} {before after : Hand}

theorem forall₂_judged (conditions : List Condition) (h : Hand) :
    List.Forall₂ (Die.Judged conditions) h (h.map (judge conditions)) :=
  List.forall₂_map_right_iff.mpr (List.forall₂_same.mpr fun d _ => d.judged_judge conditions)

theorem sum_usable_of_judged (h : List.Forall₂ (Die.Judged conditions) before after) :
    (usable after).sum = (before.countP fun d => d.counts && d.succeeds conditions : Int) -
      before.countP fun d => d.counts && d.fails conditions := by
  induction h with
  | nil => rfl
  | cons hd _ ih =>
      rw [sum_usable_cons, hd.toInt_total, ih, List.countP_cons, List.countP_cons]
      push_cast
      omega

theorem sum_take_usable_bounds {h : Hand} (hone : ∀ x ∈ usable h, -1 ≤ x ∧ x ≤ 1) (k : Nat) :
    -(h.length : Int) ≤ ((usable h).take k).sum ∧ ((usable h).take k).sum ≤ h.length := by
  have hlength : ((usable h).take k).length ≤ h.length :=
    (List.length_take_le' ..).trans (length_usable_le h)
  have hlow := List.card_nsmul_le_sum ((usable h).take k) (-1 : Int)
    fun x hx => (hone x (List.mem_of_mem_take hx)).1
  have hhigh := List.sum_le_card_nsmul ((usable h).take k) (1 : Int)
    fun x hx => (hone x (List.mem_of_mem_take hx)).2
  simp only [nsmul_eq_mul, mul_neg, mul_one] at hlow hhigh
  omega

theorem exists_result_of_usable {h : Hand} (hone : ∀ x ∈ usable h, -1 ≤ x ∧ x ≤ 1)
    (hfits : Fits h.length) :
    ∃ v : Int64, h.result = .int v ∧ v.toInt = (usable h).sum ∧ -(h.length : Int) ≤ v.toInt ∧
      v.toInt ≤ h.length := by
  have htake (k : Nat) : Fits ((usable h).take k).sum := by
    have hbounds := sum_take_usable_bounds hone k
    unfold Fits at hfits ⊢
    omega
  have hall := sum_take_usable_bounds hone (usable h).length
  have hsum := htake (usable h).length
  rw [List.take_length] at hall hsum
  have hv := toInt_ofInt hsum
  exact ⟨_, (result_eq_int_iff h).mpr ⟨htake, hv⟩, hv, hv.symm ▸ hall⟩

end Hand

namespace Dice

variable {σ : Type}

def unjudged (r : Roller σ) (d : Dice) (s : σ) : Hand :=
  (roll r { d with conditions := [] } s).2.1.hand

theorem hand_roll_of_ne_nil {d : Dice} (hc : d.conditions ≠ []) (r : Roller σ) (s : σ) :
    (d.roll r s).2.1.hand = (d.unjudged r s).map (Hand.judge d.conditions) := by
  change Hand.countSuccesses d.conditions _ = _
  rw [Hand.countSuccesses, if_neg (by simpa using hc)]
  rfl

theorem marks_unjudged (r : Roller σ) (d : Dice) (s : σ) :
    ∀ die ∈ d.unjudged r s, die.marks.toList.Sublist [.dropped, .rerolled, .exploded] :=
  marks_modified r d s

theorem counts_unjudged (r : Roller σ) (d : Dice) (s : σ) :
    ∀ die ∈ d.unjudged r s, die.counts = !die.marks.has .dropped := by
  intro die hdie
  have hsound := (sound_roll r { d with conditions := [] } s).dice die hdie
  cases hm : die.marks.has .dropped with
  | true => exact hsound.not_counts (by simpa [Marks.has] using hm)
  | false => exact hsound.counts rfl (Marks.has_eq_false.mp hm)

theorem verdict_of_mem {d : Dice} (hc : d.conditions ≠ []) (r : Roller σ) (s : σ) :
    ∀ e ∈ (d.roll r s).2.1.hand,
      e.value = -1 ∧ e.marks.has .failure = true ∧ e.marks.has .success = false ∨
      e.value = 1 ∧ e.marks.has .success = true ∧ e.marks.has .failure = false ∨
      e.counts = false ∧ e.marks.has .success = false ∧ e.marks.has .failure = false := by
  rw [hand_roll_of_ne_nil hc]
  refine List.forall_mem_map.mpr fun die hdie => ?_
  have hmarks := (marks_unjudged r d s die hdie).subset
  refine (die.judged_judge d.conditions).verdict (fun hm => ?_) (fun hm => ?_)
  · exact absurd (hmarks hm) (by decide)
  · exact absurd (hmarks hm) (by decide)

theorem usable_bounds {d : Dice} (hc : d.conditions ≠ []) (r : Roller σ) (s : σ) :
    ∀ x ∈ Hand.usable (d.roll r s).2.1.hand, -1 ≤ x ∧ x ≤ 1 := by
  refine List.forall_mem_map.mpr fun e he => ?_
  obtain ⟨he, hcounts⟩ := List.mem_filter.mp he
  rcases verdict_of_mem hc r s e he with ⟨hv, -⟩ | ⟨hv, -⟩ | ⟨hn, -⟩
  · rw [hv]
    decide
  · rw [hv]
    decide
  · rw [hn] at hcounts
    cases hcounts

theorem countP_unjudged (r : Roller σ) (d : Dice) (s : σ) (p : Die → Bool) :
    (d.unjudged r s).countP (fun e => e.counts && p e) =
      (d.unjudged r s).countP fun e => !e.marks.has .dropped && p e :=
  List.countP_congr fun e he => by rw [counts_unjudged r d s e he]

theorem total_of_dropped (r : Roller σ) (d : Dice) (s : σ) :
    ∀ e ∈ (d.roll r s).2.1.hand, e.marks.has .dropped = true → e.total = 0 := by
  intro e he hm
  have hcounts := ((sound_roll r d s).dice e he).not_counts (by simpa [Marks.has] using hm)
  rw [Die.total, hcounts]
  rfl

end Dice

namespace Pool

variable {σ : Type} {p : Pool} {d : Dice}

theorem result_of_judged (hd : p.dice? = some d) (hc : d.conditions ≠ []) (r : Roller σ) (s : σ)
    (hfits : DiceTray.Fits (p.rolled r s).hand.length) :
    let before := d.unjudged r s
    let after := (p.rolled r s).hand
    let failures := before.countP fun e => !e.marks.has .dropped && e.fails d.conditions
    let successes := before.countP fun e => !e.marks.has .dropped && e.succeeds d.conditions
    ∃ v : Int64, (p.rolled r s).result = .int v ∧ v.toInt = (successes : Int) - failures ∧
      -(after.length : Int) ≤ v.toInt ∧ v.toInt ≤ after.length ∧
      List.Forall₂ (Die.Judged d.conditions) before after ∧
      (∀ e ∈ after,
        e.value = -1 ∧ e.marks.has .failure = true ∧ e.marks.has .success = false ∨
        e.value = 1 ∧ e.marks.has .success = true ∧ e.marks.has .failure = false ∨
        e.counts = false ∧ e.marks.has .success = false ∧ e.marks.has .failure = false) ∧
      ∀ e ∈ after, e.marks.has .dropped = true → e.total = 0 := by
  intro before after failures successes
  have hafter : after = (d.roll r s).2.1.hand := hand_rolled_of_dice hd r s
  have hjudged : List.Forall₂ (Die.Judged d.conditions) before after := by
    rw [hafter, Dice.hand_roll_of_ne_nil hc]
    exact Hand.forall₂_judged d.conditions before
  have hsum := Hand.sum_usable_of_judged hjudged
  rw [Dice.countP_unjudged, Dice.countP_unjudged] at hsum
  have hone : ∀ x ∈ Hand.usable after, -1 ≤ x ∧ x ≤ 1 := hafter ▸ Dice.usable_bounds hc r s
  obtain ⟨v, hresult, hv, hlow, hhigh⟩ := Hand.exists_result_of_usable hone hfits
  refine ⟨v, ?_, hv.trans hsum, hlow, hhigh, hjudged, hafter ▸ Dice.verdict_of_mem hc r s,
    hafter ▸ Dice.total_of_dropped r d s⟩
  rw [rolled, roll_of_dice hd, result_of_dice (dice?_withDice hd _), ← hafter]
  exact hresult

theorem result_of_judged_dropped_failure :
    let r := Roller.replay [8, 1, 9, 1]
    let high : Modifier := { magnitude := 3 }
    let d : Dice :=
      { count := 4, faces := ⟨1, 10⟩, modifiers := { keepHigh := high }
        conditions := [⟨.greaterEqual, toDouble 8⟩, ⟨.negate, toDouble 1⟩] }
    let p : Pool := ⟨"4d10", .dice d⟩
    p.dice? = some d ∧ d.conditions ≠ [] ∧ DiceTray.Fits (p.rolled r 0).hand.length ∧
      d.unjudged r 0 = [.fresh 8, .fresh 1, .fresh 9, (Die.fresh 1).drop] ∧
      (p.rolled r 0).result = .int 1 ∧
      (∀ e ∈ (p.rolled r 0).hand, e.marks.has .dropped = true → e.total = 0) ∧
      (p.rolled r 0).hand[3]? = some ⟨-1, false, ⟨[.dropped, .failure]⟩⟩ := by
  intro r high d p
  have hd : p.dice? = some d := rfl
  have hc : d.conditions ≠ [] := nofun
  let drawn : Hand := [.fresh 8, .fresh 1, .fresh 9, .fresh 1]
  have hbefore : d.unjudged r 0 = [.fresh 8, .fresh 1, .fresh 9, (Die.fresh 1).drop] := by
    change drawn.keepHigh 3 = _
    rw [Hand.keepHigh_eq_dropPlaces]
    decide
  have hhand : (p.rolled r 0).hand =
      [⟨1, true, ⟨[.success]⟩⟩, ⟨-1, true, ⟨[.failure]⟩⟩, ⟨1, true, ⟨[.success]⟩⟩,
        ⟨-1, false, ⟨[.dropped, .failure]⟩⟩] := by
    rw [hand_rolled_of_dice hd, Dice.hand_roll_of_ne_nil hc, hbefore]
    decide +kernel
  have hfits : DiceTray.Fits (p.rolled r 0).hand.length := by
    rw [hhand]
    decide
  obtain ⟨v, hresult, hv, -, -, -, -, hdropped⟩ := result_of_judged hd hc r 0 hfits
  rw [hbefore] at hv
  obtain rfl : v = 1 := Int64.toInt_inj.mp (hv.trans (by decide +kernel))
  exact ⟨hd, hc, hfits, hbefore, hresult, hdropped, by rw [hhand]; rfl⟩

end Pool

end DiceTray

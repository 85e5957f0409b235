import DiceTray.Proofs.Hand.Total
import DiceTray.Proofs.Pool.Attached
import Mathlib.Algebra.Order.BigOperators.Group.List

namespace DiceTray

section Sum

variable {α : Type} {f : α → Int} {l : List α} {vs : List Int} {a : Int}

def gains (vs : List Int) : Int := (vs.filter fun v => 0 ≤ v).sum

def losses (vs : List Int) : Int := (vs.filter fun v => v < 0).sum

theorem sum_nonpos (h : ∀ v ∈ vs, v ≤ 0) : vs.sum ≤ 0 := by
  simpa using List.sum_le_card_nsmul vs 0 h

theorem gains_nonneg (vs : List Int) : 0 ≤ gains vs :=
  List.sum_nonneg fun _ hv => of_decide_eq_true (List.mem_filter.mp hv).2

theorem losses_nonpos (vs : List Int) : losses vs ≤ 0 :=
  sum_nonpos fun _ hv => Int.le_of_lt (of_decide_eq_true (List.mem_filter.mp hv).2)

theorem gains_cons (v : Int) (vs : List Int) : gains (v :: vs) = max v 0 + gains vs := by
  by_cases hv : 0 ≤ v
  · simp [gains, hv]
  · simp [gains, hv]
    omega

theorem losses_cons (v : Int) (vs : List Int) : losses (v :: vs) = min v 0 + losses vs := by
  by_cases hv : v < 0
  · simp [losses, hv]
    omega
  · simp [losses, hv]
    omega

theorem sum_take_bounds (vs : List Int) (k : Nat) :
    losses vs ≤ (vs.take k).sum ∧ (vs.take k).sum ≤ gains vs := by
  induction vs generalizing k with
  | nil => simp [gains, losses]
  | cons v vs ih =>
      cases k with
      | zero => exact ⟨losses_nonpos _, gains_nonneg _⟩
      | succ k =>
          obtain ⟨hlow, hhigh⟩ := ih k
          rw [List.take_succ_cons, List.sum_cons, gains_cons, losses_cons]
          omega

theorem fits_sum_take (hgains : Fits (gains vs)) (hlosses : Fits (losses vs)) (k : Nat) :
    Fits (vs.take k).sum := by
  have hbounds := sum_take_bounds vs k
  unfold Fits at hgains hlosses ⊢
  omega

theorem gains_perm {ws : List Int} (h : vs.Perm ws) : gains vs = gains ws :=
  (h.filter _).sum_eq

theorem losses_perm {ws : List Int} (h : vs.Perm ws) : losses vs = losses ws :=
  (h.filter _).sum_eq

theorem exists_mem_fits (hne : l ≠ []) (hl : ∀ x ∈ l, Fits (f x)) (ha : Fits a)
    (hsum : Fits (a + (l.map f).sum)) : ∃ x ∈ l, Fits (a + f x) := by
  by_cases hx : ∃ x ∈ l, (0 ≤ a ↔ f x < 0)
  · obtain ⟨x, hx, hsign⟩ := hx
    have hfits := hl x hx
    refine ⟨x, hx, ?_⟩
    unfold Fits at ha hfits ⊢
    omega
  · -- All values have the sign of the sum so far, so the first lies on the way to the end.
    push Not at hx
    obtain ⟨x, rest, rfl⟩ := List.exists_cons_of_ne_nil hne
    refine ⟨x, List.mem_cons_self, ?_⟩
    rw [List.map_cons, List.sum_cons] at hsum
    have hfirst := hx x List.mem_cons_self
    have hrest : (0 ≤ a ∧ 0 ≤ (rest.map f).sum) ∨ (a < 0 ∧ (rest.map f).sum ≤ 0) := by
      rcases lt_or_ge a 0 with hneg | hpos
      · refine .inr ⟨hneg, sum_nonpos (List.forall_mem_map.mpr fun y hy => ?_)⟩
        have hsame := hx y (List.mem_cons_of_mem x hy)
        omega
      · refine .inl ⟨hpos, List.sum_nonneg (List.forall_mem_map.mpr fun y hy => ?_)⟩
        have hsame := hx y (List.mem_cons_of_mem x hy)
        omega
    unfold Fits at ha hsum ⊢
    omega

theorem exists_perm_fits (hl : ∀ x ∈ l, Fits (f x)) (ha : Fits a)
    (hsum : Fits (a + (l.map f).sum)) :
    ∃ m : List α, m.Perm l ∧ ∀ k, Fits (a + ((m.map f).take k).sum) := by
  induction hlen : l.length generalizing l a with
  | zero =>
      obtain rfl := List.length_eq_zero_iff.mp hlen
      exact ⟨[], .refl [], fun k => by simpa using ha⟩
  | succ n ih =>
      obtain ⟨x, hx, hfits⟩ := exists_mem_fits (List.ne_nil_of_length_eq_add_one hlen) hl ha hsum
      obtain ⟨front, back, rfl⟩ := List.append_of_mem hx
      have hmiddle : (x :: (front ++ back)).Perm (front ++ x :: back) := List.perm_middle.symm
      have hend : a + ((front ++ x :: back).map f).sum =
          a + f x + ((front ++ back).map f).sum := by
        rw [← (hmiddle.map f).sum_eq, List.map_cons, List.sum_cons, Int.add_assoc]
      obtain ⟨m, hperm, hm⟩ := ih (a := a + f x) (l := front ++ back)
        (fun y hy => hl y (hmiddle.subset (List.mem_cons_of_mem x hy))) hfits (hend ▸ hsum)
        (Nat.succ.inj (hmiddle.length_eq.trans hlen))
      refine ⟨x :: m, (hperm.cons x).trans hmiddle, fun k => ?_⟩
      cases k with
      | zero => simpa using ha
      | succ k =>
          rw [List.map_cons, List.take_succ_cons, List.sum_cons, ← Int.add_assoc]
          exact hm k

end Sum

namespace Hand

theorem exists_perm_take_usable (q : Int → Bool) (h : Hand) :
    ∃ g : Hand, g.Perm h ∧ ∃ k, (usable g).take k = (usable h).filter q := by
  refine ⟨_, List.filter_append_perm (fun d => q d.value.toInt) h, ((usable h).filter q).length, ?_⟩
  rw [usable_append, usable_filter, List.take_left]

theorem exists_perm_fits_usable {h : Hand} (hsum : Fits (usable h).sum) :
    ∃ g : Hand, g.Perm h ∧ ∀ k, Fits ((usable g).take k).sum := by
  obtain ⟨m, hperm, hm⟩ := exists_perm_fits (l := h.filter Die.counts)
    (f := fun d => d.value.toInt) (a := 0) (fun d _ => fits_toInt d.value) (by decide)
    (by simpa [usable] using hsum)
  refine ⟨m ++ h.filter fun d => !d.counts,
    (hperm.append_right _).trans (List.filter_append_perm Die.counts h), fun k => ?_⟩
  have hcounts : m.filter Die.counts = m :=
    List.filter_eq_self.mpr fun d hd => (List.mem_filter.mp (hperm.subset hd)).2
  have hrest : (h.filter fun d => !d.counts).filter Die.counts = [] := by simp
  simpa only [usable, List.filter_append, hcounts, hrest, List.append_nil, Int.zero_add] using hm k

theorem forall_perm_fits_iff {h : Hand} :
    (∀ g : Hand, g.Perm h → ∀ k, Fits ((usable g).take k).sum) ↔
      Fits (gains (usable h)) ∧ Fits (losses (usable h)) := by
  constructor
  · intro hfit
    obtain ⟨g, hg, k, hk⟩ := exists_perm_take_usable (fun v => 0 ≤ v) h
    obtain ⟨g', hg', k', hk'⟩ := exists_perm_take_usable (fun v => v < 0) h
    have hgains := hfit g hg k
    have hlosses := hfit g' hg' k'
    rw [hk] at hgains
    rw [hk'] at hlosses
    exact ⟨hgains, hlosses⟩
  · rintro ⟨hgains, hlosses⟩ g hg k
    rw [← gains_perm (usable_perm hg)] at hgains
    rw [← losses_perm (usable_perm hg)] at hlosses
    exact fits_sum_take hgains hlosses k

theorem result_of_perm {g h : Hand} (hg : g.Perm h) (hsum : Fits (usable h).sum) :
    g.result = .int (Int64.ofInt (usable h).sum) ↔ ∀ k, Fits ((usable g).take k).sum := by
  rw [result_eq_int_iff, toInt_ofInt hsum, (usable_perm hg).sum_eq]
  exact and_iff_left rfl

theorem exists_real_of_not_fits {h : Hand} {k : Nat} (hk : ¬ Fits ((usable h).take k).sum) :
    ∃ x, h.result = .real x := by
  cases hresult : h.result with
  | int v => exact absurd ((result_eq_int_iff h).mp hresult).1 fun hfit => hk (hfit k)
  | real x => exact ⟨x, rfl⟩

end Hand

namespace Pool

theorem result_withHand {p : Pool} {d : Dice} (hd : p.dice? = some d) (g : Hand) :
    (p.withHand g).result = g.result := by
  simp only [withHand, hd]
  rw [result_of_dice (dice?_withDice hd _)]

/-- The result of the same dice in every order. An order gives the exact sum as long as no beginning
of the sum leaves the words, and a double otherwise. Where a word holds the sum, some order has it,
and all orders agree exactly if words hold what is added and what is taken away, too. -/
theorem result_of_shuffled {p : Pool} {d : Dice} (hd : p.dice? = some d) :
    let vs := Hand.usable d.hand
    (∀ g : Hand, g.Perm d.hand →
      ((∀ k, DiceTray.Fits ((Hand.usable g).take k).sum) →
        (p.withHand g).result = .int (Int64.ofInt vs.sum)) ∧
      ∀ k, ¬ DiceTray.Fits ((Hand.usable g).take k).sum →
        ∃ x, (p.withHand g).result = .real x) ∧
    (DiceTray.Fits vs.sum →
      (∃ g : Hand, g.Perm d.hand ∧ (p.withHand g).result = .int (Int64.ofInt vs.sum)) ∧
      ((∀ g : Hand, g.Perm d.hand → (p.withHand g).result = p.result) ↔
        DiceTray.Fits (gains vs) ∧ DiceTray.Fits (losses vs))) := by
  simp only [result_withHand hd, result_of_dice hd]
  refine ⟨fun g hg => ⟨fun hfit => ?_, fun k => Hand.exists_real_of_not_fits⟩, fun hsum => ?_⟩
  · have hsum : DiceTray.Fits (Hand.usable d.hand).sum := by
      simpa [(Hand.usable_perm hg).sum_eq] using hfit (Hand.usable g).length
    exact (Hand.result_of_perm hg hsum).mpr hfit
  · obtain ⟨m, hm, hfits⟩ := Hand.exists_perm_fits_usable hsum
    have hresult := (Hand.result_of_perm hm hsum).mpr hfits
    refine ⟨⟨m, hm, hresult⟩, ?_⟩
    rw [← Hand.forall_perm_fits_iff]
    constructor
    · intro hsame g hg
      rw [← Hand.result_of_perm hg hsum, hsame g hg, ← hsame m hm]
      exact hresult
    · intro hfit g hg
      rw [(Hand.result_of_perm hg hsum).mpr (hfit g hg),
        (Hand.result_of_perm (.refl _) hsum).mpr (hfit d.hand (.refl _))]

theorem result_of_shuffled_dropped :
    let hand : Hand := [.fresh (-2), (Die.fresh 7).drop, .fresh 9223372036854775807, .fresh 2]
    let p : Pool := ⟨"4d[-9,9223372036854775807]", .dice
      { count := 4, faces := ⟨-9, 9223372036854775807⟩, hand }⟩
    p.hand = hand ∧ DiceTray.Fits (Hand.usable hand).sum ∧ p.result = .int 9223372036854775807 ∧
      ¬ DiceTray.Fits (gains (Hand.usable hand)) ∧
      ∃ g : Hand, g.Perm hand ∧ (p.withHand g).result ≠ p.result := by
  intro hand p
  have hd : p.dice? = some { count := 4, faces := ⟨-9, 9223372036854775807⟩, hand } := rfl
  have hsum : DiceTray.Fits (Hand.usable hand).sum := by decide
  have hgains : ¬ DiceTray.Fits (gains (Hand.usable hand)) := by decide
  obtain ⟨-, hagree⟩ := (result_of_shuffled hd).2 hsum
  have hdiffer := (not_congr hagree).mpr fun hfits => hgains hfits.1
  push Not at hdiffer
  have hresult : p.result = .int 9223372036854775807 := by rfl
  exact ⟨rfl, hsum, hresult, hgains, hdiffer⟩

theorem result_of_shuffled_overflow :
    let r := Roller.replay [9223372036854775807, 1, -1]
    let faces : Faces := ⟨-9223372036854775807, 9223372036854775807⟩
    let source := "3d[-9223372036854775807,9223372036854775807]"
    let p := (ofNotation r source (.dice 3 faces) 0).1
    let g : Hand := [.fresh 1, .fresh (-1), .fresh 9223372036854775807]
    Notation.read source = .ok (.dice 3 faces) ∧ g.Perm p.hand ∧
      (Hand.usable p.hand).sum = 9223372036854775807 ∧ DiceTray.Fits (Hand.usable p.hand).sum ∧
      (p.withHand g).result = .int 9223372036854775807 ∧ ∃ x, p.result = .real x := by
  intro r faces source p g
  let hand : Hand := [.fresh 9223372036854775807, .fresh 1, .fresh (-1)]
  have hread : Notation.read "3d[-9223372036854775807,9223372036854775807]" =
      .ok (.dice 3 ⟨-9223372036854775807, 9223372036854775807⟩) := rfl
  have hdice : p.dice? = some { count := 3, faces, hand } := rfl
  have hperm : g.Perm hand := by decide
  have hsum : DiceTray.Fits (Hand.usable hand).sum := by decide
  have hbeyond : ¬ DiceTray.Fits ((Hand.usable hand).take 2).sum := by decide
  refine ⟨hread, hperm, by decide, hsum, rfl, ?_⟩
  rw [result_of_dice hdice]
  exact Hand.exists_real_of_not_fits hbeyond

end Pool

end DiceTray

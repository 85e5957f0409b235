import DiceTray.Proofs.Hand.Ranked
import DiceTray.Proofs.Hand.Rounds
import DiceTray.Proofs.Pool.Since
import Mathlib.Algebra.Order.BigOperators.Group.List

namespace DiceTray

instance : Membership Int64 Faces where
  mem f v := f.low ≤ v ∧ v ≤ f.high

instance (v : Int64) (f : Faces) : Decidable (v ∈ f) := inferInstanceAs (Decidable (_ ∧ _))

namespace Roller

variable {σ : Type} {r : Roller σ} {faces : Faces}

structure Keeps (r : Roller σ) (faces : Faces) : Prop where
  draw : ∀ s, (r.draw faces s).1 ∈ faces
  drawMany : ∀ n s, ∀ v ∈ (r.drawMany faces n s).1, v ∈ faces

theorem mem_of_draws (hr : ∀ s, (r.draw faces s).1 ∈ faces) {s s' : σ} {vs : List Int64}
    (h : r.Draws faces s vs s') : ∀ v ∈ vs, v ∈ faces := by
  induction vs generalizing s with
  | nil => exact nofun
  | cons v vs ih =>
      obtain ⟨rfl, hrest⟩ := draws_cons_iff.mp h
      exact List.forall_mem_cons.mpr ⟨hr s, ih hrest⟩

theorem keeps_of_draw (hr : ∀ s, (r.draw faces s).1 ∈ faces)
    (hmany : r.drawMany = drawEach r.draw) : r.Keeps faces := by
  refine ⟨hr, fun n s => ?_⟩
  rw [hmany]
  exact mem_of_draws hr (draws_drawEach r faces n s)

end Roller

namespace Hand

def On (faces : Faces) (h : Hand) : Prop := ∀ d ∈ h, d.value ∈ faces

section Batch

variable {trigger : List Condition} {times : Nat} {P : Int64 → Prop} {b b' : List (Bool × Die)}
  {vs : List Int64} {rounds : List (List Int64)}

theorem Dealt.forall_value (h : Dealt b vs b') (hvs : ∀ v ∈ vs, P v) (hb : ∀ x ∈ b, P x.2.value) :
    ∀ x ∈ b', P x.2.value := by
  induction h with
  | nil => exact hb
  | spared _ ih =>
      obtain ⟨hx, hb⟩ := List.forall_mem_cons.mp hb
      exact List.forall_mem_cons.mpr ⟨hx, ih hvs hb⟩
  | drawn _ ih =>
      obtain ⟨hv, hvs⟩ := List.forall_mem_cons.mp hvs
      exact List.forall_mem_cons.mpr ⟨hv, ih hvs (List.forall_mem_cons.mp hb).2⟩

theorem Rounds.forall_value (h : Rounds trigger times b rounds b')
    (hvs : ∀ v ∈ rounds.flatten, P v) (hb : ∀ x ∈ b, P x.2.value) : ∀ x ∈ b', P x.2.value := by
  induction h with
  | done => exact hb
  | next _ hfirst _ ih =>
      obtain ⟨hround, hrest⟩ := List.forall_mem_append.mp hvs
      exact ih hrest (hfirst.forall_value hround hb)

end Batch

section Block

variable {trigger : List Condition} {times : Nat} {P : Int64 → Prop} {d : Die} {b h : Hand}
  {bs : List Hand} {v : Int64} {vs : List Int64}

theorem IsChain.length_le (h : IsChain trigger times v vs) : vs.length ≤ times := by
  induction h with
  | done => exact Nat.zero_le _
  | next _ _ ih => exact Nat.succ_le_succ ih

theorem Block.length_added_le (hb : Block trigger times d b) : (added b).length ≤ times := by
  obtain ⟨vs, hchain, rfl⟩ := hb.exists_chain
  rw [added_joinBeside]
  exact hchain.length_le

theorem Block.forall_value (hb : Block trigger times d b) (hd : P d.value)
    (hadded : ∀ v ∈ added b, P v) : ∀ e ∈ b, P e.value := by
  have hrest : ∀ e ∈ b.tail, P e.value := List.forall_mem_map.mp hadded
  cases hb with
  | same => exact List.forall_mem_singleton.mpr hd
  | chain => exact List.forall_mem_cons.mpr ⟨hd, hrest⟩

theorem forall_value_flatten (hbs : List.Forall₂ (Block trigger times) h bs)
    (hd : ∀ d ∈ h, P d.value) (hadded : ∀ v ∈ bs.flatMap added, P v) :
    ∀ e ∈ bs.flatten, P e.value := by
  induction hbs with
  | nil => exact nofun
  | cons hb _ ih =>
      rw [List.flatMap_cons, List.forall_mem_append] at hadded
      obtain ⟨hfirst, hrest⟩ := List.forall_mem_cons.mp hd
      rw [List.flatten_cons, List.forall_mem_append]
      exact ⟨hb.forall_value hfirst hadded.1, ih hrest hadded.2⟩

theorem length_flatMap_added_le (hbs : List.Forall₂ (Block trigger times) h bs) :
    (bs.flatMap added).length ≤ h.length * times := by
  induction hbs with
  | nil => exact Nat.zero_le _
  | cons hb _ ih =>
      rw [List.flatMap_cons, List.length_append, List.length_cons, Nat.succ_mul, Nat.add_comm]
      exact Nat.add_le_add ih hb.length_added_le

end Block

variable {σ : Type} {r : Roller σ} {faces : Faces} {hand : Hand}

theorem on_draw (hr : r.Keeps faces) (count : Nat) (s : σ) : (draw r faces count s).1.On faces :=
  List.forall_mem_map.mpr (hr.drawMany count s)

theorem On.dropWhere (h : hand.On faces) (p : Nat → Bool) : (hand.dropWhere p).On faces :=
  forall_mem_dropWhere (fun _ hd => hd) h p

theorem On.reroll (h : hand.On faces) (hr : r.Keeps faces) (times : Nat)
    (trigger : List Condition) (s : σ) : (hand.reroll r faces times trigger s).1.On faces := by
  obtain ⟨rounds, b, s', hreroll, hb, hdraws⟩ := rounds_reroll r faces times trigger hand s
  rw [hreroll]
  exact List.forall_mem_map.mpr
    (hb.forall_value (Roller.mem_of_draws hr.draw hdraws) (List.forall_mem_map.mpr h))

theorem On.explode (h : hand.On faces) (hr : r.Keeps faces) (times : Nat)
    (trigger : List Condition) (s : σ) : (hand.explode r faces times trigger s).1.On faces := by
  obtain ⟨hbs, hdraws⟩ := forall₂_blocks r faces times trigger hand s
  rw [(explosions_eq r faces times trigger hand s).1]
  exact forall_value_flatten hbs h (Roller.mem_of_draws hr.draw hdraws)

theorem length_explode_le (r : Roller σ) (faces : Faces) (times : Nat) (trigger : List Condition)
    (hand : Hand) (s : σ) :
    (hand.explode r faces times trigger s).1.length ≤ hand.length * (1 + times) := by
  obtain ⟨hbs, -⟩ := forall₂_blocks r faces times trigger hand s
  rw [(explosions_eq r faces times trigger hand s).1, length_flatten_of_blocks hbs, Nat.mul_add,
    Nat.mul_one]
  exact Nat.add_le_add_left (length_flatMap_added_le hbs) _

theorem On.sum_usable_bounds (h : hand.On faces) :
    hand.countP Die.counts * faces.low.toInt ≤ (usable hand).sum ∧
      (usable hand).sum ≤ hand.countP Die.counts * faces.high.toInt := by
  have hvalues : ∀ x ∈ usable hand, faces.low.toInt ≤ x ∧ x ≤ faces.high.toInt := by
    refine List.forall_mem_map.mpr fun d hd => ?_
    obtain ⟨hlow, hhigh⟩ := h d (List.mem_of_mem_filter hd)
    exact ⟨Int64.le_iff_toInt_le.mp hlow, Int64.le_iff_toInt_le.mp hhigh⟩
  have hlength : (usable hand).length = hand.countP Die.counts := by
    rw [usable, List.length_map, List.countP_eq_length_filter]
  have hlow := List.card_nsmul_le_sum (usable hand) _ fun x hx => (hvalues x hx).1
  have hhigh := List.sum_le_card_nsmul (usable hand) _ fun x hx => (hvalues x hx).2
  rw [hlength, nsmul_eq_mul] at hlow hhigh
  exact ⟨hlow, hhigh⟩

end Hand

def Phase.growth (m : Modifier) : Phase → Nat
  | .explode => 1 + m.magnitude
  | _ => 1

def Modifiers.growth (ms : Modifiers) (phase : Phase) : Nat :=
  (ms.get? phase).elim 1 fun m => phase.growth m

namespace Dice

variable {σ : Type} {r : Roller σ} {faces : Faces} {hand : Hand} {ms : Modifiers}

theorem on_apply (h : hand.On faces) (hr : r.Keeps faces) {phase : Phase}
    (hp : phase ≠ .explodeInto) (m : Modifier) (s : σ) :
    (apply r faces phase m hand s).1.On faces := by
  cases phase with
  | keepHigh => exact h.dropWhere _
  | keepLow => exact h.dropWhere _
  | reroll => exact h.reroll hr m.magnitude _ s
  | explode => exact h.explode hr m.magnitude _ s
  | explodeInto => exact absurd rfl hp

theorem on_applyAll (h : hand.On faces) (hr : r.Keeps faces) {phases : List Phase}
    (hm : .explodeInto ∈ phases → ms.explodeInto = none) (s : σ) :
    (applyAll r faces ms phases hand s).1.On faces := by
  induction phases generalizing hand s with
  | nil => exact h
  | cons phase phases ih =>
      have hrest : .explodeInto ∈ phases → ms.explodeInto = none :=
        fun hp => hm (List.mem_cons_of_mem _ hp)
      cases hphase : ms.get? phase with
      | none =>
          simp only [applyAll, hphase]
          exact ih h hrest s
      | some m =>
          have hp : phase ≠ .explodeInto := by
            rintro rfl
            cases (hm List.mem_cons_self).symm.trans hphase
          simp only [applyAll, hphase]
          exact ih (on_apply h hr hp m s) hrest _

theorem length_apply_le (r : Roller σ) (faces : Faces) (phase : Phase) (m : Modifier)
    (hand : Hand) (s : σ) :
    (apply r faces phase m hand s).1.length ≤ hand.length * phase.growth m := by
  cases phase with
  | explode => exact Hand.length_explode_le r faces m.magnitude _ hand s
  | keepHigh | keepLow => exact Nat.le_of_eq ((Hand.length_dropWhere ..).trans (Nat.mul_one _).symm)
  | reroll =>
      exact Nat.le_of_eq ((Hand.length_reroll r faces hand m.magnitude _ s).trans
        (Nat.mul_one _).symm)
  | explodeInto =>
      exact Nat.le_of_eq ((Hand.length_explodeInto r faces m.magnitude _ hand s).trans
        (Nat.mul_one _).symm)

theorem length_applyAll_le (r : Roller σ) (faces : Faces) (ms : Modifiers) (phases : List Phase)
    (hand : Hand) (s : σ) :
    (applyAll r faces ms phases hand s).1.length ≤ hand.length * (phases.map ms.growth).prod := by
  induction phases generalizing hand s with
  | nil => exact Nat.le_of_eq (Nat.mul_one _).symm
  | cons phase phases ih =>
      rw [List.map_cons, List.prod_cons, ← Nat.mul_assoc]
      cases hphase : ms.get? phase with
      | none =>
          have hgrowth : ms.growth phase = 1 := by rw [Modifiers.growth, hphase]; rfl
          simp only [applyAll, hphase, hgrowth, Nat.mul_one]
          exact ih hand s
      | some m =>
          have hgrowth : ms.growth phase = phase.growth m := by rw [Modifiers.growth, hphase]; rfl
          simp only [applyAll, hphase, hgrowth]
          exact (ih _ _).trans
            (Nat.mul_le_mul_right _ (length_apply_le r faces phase m hand s))

theorem prod_growth (ms : Modifiers) :
    (Phase.all.map ms.growth).prod = 1 + (ms.explode.map Modifier.magnitude).getD 0 := by
  rcases ms with ⟨_ | _, _ | _, _ | _, _ | _, _ | _⟩ <;>
    simp [Phase.all, Modifiers.growth, Modifiers.get?, Phase.growth]

theorem hand_roll_of_eq_nil {d : Dice} (hc : d.conditions = []) (r : Roller σ) (s : σ) :
    let drawn := Hand.draw r d.faces d.count s
    (d.roll r s).2.1.hand = (applyAll r d.faces d.modifiers Phase.all drawn.1 drawn.2).1 := by
  change Hand.countSuccesses d.conditions _ = _
  rw [hc]
  rfl

end Dice

namespace Pool

variable {σ : Type} {p : Pool} {d : Dice} {r : Roller σ}

theorem values_mem_of_roll (hd : p.dice? = some d) (hm : d.modifiers.explodeInto = none)
    (hc : d.conditions = []) (hr : r.Keeps d.faces) (s : σ) :
    let hand := (p.rolled r s).hand
    let times := (d.modifiers.explode.map Modifier.magnitude).getD 0
    let counting := hand.countP Die.counts
    (∀ die ∈ hand, die.value ∈ d.faces) ∧ hand.length ≤ d.count * (1 + times) ∧
      counting * d.faces.low.toInt ≤ (Hand.usable hand).sum ∧
      (Hand.usable hand).sum ≤ counting * d.faces.high.toInt := by
  intro hand times counting
  have hhand : hand = (Dice.applyAll r d.faces d.modifiers Phase.all
      (Hand.draw r d.faces d.count s).1 (Hand.draw r d.faces d.count s).2).1 :=
    (hand_rolled_of_dice hd r s).trans (Dice.hand_roll_of_eq_nil hc r s)
  have hlength := Dice.length_applyAll_le r d.faces d.modifiers Phase.all
    (Hand.draw r d.faces d.count s).1 (Hand.draw r d.faces d.count s).2
  rw [← hhand, Dice.prod_growth, Hand.length_draw] at hlength
  have hon : hand.On d.faces := by
    rw [hhand]
    exact Dice.on_applyAll (Hand.on_draw hr d.count s) hr (fun _ => hm) _
  exact ⟨hon, hlength, hon.sum_usable_bounds⟩

theorem values_mem_of_roll_highest :
    let r : Roller Bool :=
      { draw := fun faces first => (if first then faces.high else faces.low, !first)
        drawMany := fun faces n first =>
          ((List.range n).map fun i => if i % 2 = 0 then faces.high else faces.low, !first)
        length_drawMany := fun _ _ _ => (List.length_map ..).trans List.length_range }
    let d : Dice :=
      { count := 3, faces := ⟨-2, 5⟩
        modifiers := { keepHigh := some ⟨2, []⟩, reroll := some ⟨1, []⟩, explode := some ⟨2, []⟩ } }
    let p : Pool := ⟨"3d[-2,5]", .dice d⟩
    p.dice? = some d ∧ d.modifiers.explodeInto = none ∧ d.conditions = [] ∧
      r.Keeps d.faces ∧
      (p.rolled r true).hand.values = [5, 5, -2, -2, 5, 5, -2] ∧
      (∀ die ∈ (p.rolled r true).hand, die.value ∈ d.faces) ∧
      (p.rolled r true).hand.length ≤ 3 * (1 + 2) := by
  intro r d p
  have hd : p.dice? = some d := rfl
  have hr : r.Keeps d.faces := by
    refine ⟨by decide, fun n s v hv => ?_⟩
    obtain ⟨i, -, rfl⟩ := List.mem_map.mp hv
    split <;> decide
  have hkept : Hand.keepHigh 2 [.fresh 5, .fresh (-2), .fresh 5] =
      [.fresh 5, (Die.fresh (-2)).drop, .fresh 5] := by
    rw [Hand.keepHigh_eq_dropPlaces]
    decide
  have hhand : (p.rolled r true).hand = (Dice.applyAll r d.faces d.modifiers
      [.reroll, .explode] (Hand.keepHigh 2 [.fresh 5, .fresh (-2), .fresh 5]) false).1 := rfl
  have hshown : (p.rolled r true).hand.values = [5, 5, -2, -2, 5, 5, -2] := by
    rw [hhand, hkept]
    decide +kernel
  obtain ⟨hvalues, hlength, -⟩ := values_mem_of_roll hd rfl rfl hr true
  exact ⟨hd, rfl, rfl, hr, hshown, hvalues, hlength⟩

end Pool

end DiceTray

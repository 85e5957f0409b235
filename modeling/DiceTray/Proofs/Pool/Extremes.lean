import DiceTray.Proofs.Number.Rounding
import DiceTray.Proofs.Pool.OnFaces
import DiceTray.Proofs.Pool.Operation

namespace DiceTray

section Words

variable {a b c : Int64}

theorem toInt_succ (h : a < b) : (a + 1).toInt = a.toInt + 1 := by
  have hlt := Int64.lt_iff_toInt_lt.mp h
  have hlow := a.le_toInt
  have hhigh := b.toInt_lt
  rw [Int64.toInt_add, Int64.toInt_one]
  exact Int.bmod_eq_of_le (by omega) (by omega)

theorem toInt_pred (h : a < b) : (b - 1).toInt = b.toInt - 1 := by
  have hlt := Int64.lt_iff_toInt_lt.mp h
  have hlow := a.le_toInt
  have hhigh := b.toInt_lt
  rw [Int64.toInt_sub, Int64.toInt_one]
  exact Int.bmod_eq_of_le (by omega) (by omega)

theorem toDouble_beq_of_between (hab : a.toInt ≤ b.toInt) (hbc : b.toInt ≤ c.toInt)
    (h : (toDouble a == toDouble c) = true) :
    (toDouble b == toDouble a) = true ∧ (toDouble b == toDouble c) = true := by
  rw [Double.toDouble_beq_iff] at h ⊢
  rw [Double.toDouble_beq_iff]
  have hfirst := Double.signedPlace_le hab
  have hlast := Double.signedPlace_le hbc
  omega

end Words

namespace Faces

variable {f : Faces} {m n : Int64}

def Apart (f : Faces) (n : Int64) : Prop := ∀ v ∈ f, (toDouble v == toDouble n) = true → v = n

def extreme (f : Faces) : Phase → Int64
  | .reroll => f.low
  | _ => f.high

theorem eq_of_mem (heq : f.low = f.high) {v : Int64} (hv : v ∈ f) : v = f.low :=
  Int64.le_antisymm (heq ▸ hv.2) hv.1

theorem apart_iff_of_between (hm : m ∈ f) (hne : m ≠ n)
    (hbetween : ∀ v ∈ f, v ≠ n → n.toInt ≤ m.toInt ∧ m.toInt ≤ v.toInt ∨
      v.toInt ≤ m.toInt ∧ m.toInt ≤ n.toInt) :
    f.Apart n ↔ (toDouble m == toDouble n) = false := by
  constructor
  · intro hapart
    exact Bool.eq_false_iff.mpr fun hbeq => hne (hapart m hm hbeq)
  · intro hfalse v hv hbeq
    by_contra hvn
    -- rounding keeps the order, so the face between the two has their double
    have hsame : (toDouble m == toDouble n) = true := by
      rcases hbetween v hv hvn with ⟨hnm, hmv⟩ | ⟨hvm, hmn⟩
      · have hbeq := (Double.toDouble_beq_iff n v).mpr ((Double.toDouble_beq_iff v n).mp hbeq).symm
        exact (toDouble_beq_of_between hnm hmv hbeq).1
      · exact (toDouble_beq_of_between hvm hmn hbeq).2
    rw [hfalse] at hsame
    cases hsame

theorem apart_low_iff (h : f.low ≤ f.high) :
    f.Apart f.low ↔ f.low = f.high ∨ (toDouble (f.low + 1) == toDouble f.low) = false := by
  rcases Int64.lt_or_eq_of_le h with hlt | heq
  · have hsucc := toInt_succ hlt
    have hless := Int64.lt_iff_toInt_lt.mp hlt
    rw [or_iff_right (Int64.ne_of_lt hlt)]
    refine apart_iff_of_between ⟨?_, ?_⟩ (fun he => ?_) fun v hv hne => .inl ⟨?_, ?_⟩
    · exact Int64.le_iff_toInt_le.mpr (by omega)
    · exact Int64.le_iff_toInt_le.mpr (by omega)
    · rw [he] at hsucc
      omega
    · omega
    · have := Int64.lt_iff_toInt_lt.mp (Int64.lt_of_le_of_ne hv.1 (Ne.symm hne))
      omega
  · exact iff_of_true (fun v hv _ => eq_of_mem heq hv) (.inl heq)

theorem apart_high_iff (h : f.low ≤ f.high) :
    f.Apart f.high ↔ f.low = f.high ∨ (toDouble (f.high - 1) == toDouble f.high) = false := by
  rcases Int64.lt_or_eq_of_le h with hlt | heq
  · have hpred := toInt_pred hlt
    have hless := Int64.lt_iff_toInt_lt.mp hlt
    rw [or_iff_right (Int64.ne_of_lt hlt)]
    refine apart_iff_of_between ⟨?_, ?_⟩ (fun he => ?_) fun v hv hne => .inr ⟨?_, ?_⟩
    · exact Int64.le_iff_toInt_le.mpr (by omega)
    · exact Int64.le_iff_toInt_le.mpr (by omega)
    · rw [he] at hpred
      omega
    · have := Int64.lt_iff_toInt_lt.mp (Int64.lt_of_le_of_ne hv.2 hne)
      omega
    · omega
  · exact iff_of_true (fun v hv _ => (eq_of_mem heq hv).trans heq) (.inl heq)

theorem apart_low_of_bounds (h : f.low ≤ f.high) (hlow : -2 ^ 53 ≤ f.low.toInt)
    (hhigh : f.low.toInt < 2 ^ 53) : f.Apart f.low := by
  rw [apart_low_iff h]
  rcases Int64.lt_or_eq_of_le h with hlt | heq
  · have hplace := Double.signedPlace_lt_succ hlow hhigh
    refine .inr (Bool.eq_false_iff.mpr fun hbeq => ?_)
    rw [Double.toDouble_beq_iff, toInt_succ hlt] at hbeq
    omega
  · exact .inl heq

theorem apart_high_of_bounds (h : f.low ≤ f.high) (hlow : -2 ^ 53 < f.high.toInt)
    (hhigh : f.high.toInt ≤ 2 ^ 53) : f.Apart f.high := by
  rw [apart_high_iff h]
  rcases Int64.lt_or_eq_of_le h with hlt | heq
  · have hplace := Double.signedPlace_lt_succ (n := f.high.toInt - 1) (by omega) (by omega)
    rw [Int.sub_add_cancel] at hplace
    refine .inr (Bool.eq_false_iff.mpr fun hbeq => ?_)
    rw [Double.toDouble_beq_iff, toInt_pred hlt] at hbeq
    omega
  · exact .inl heq

end Faces

theorem holds_equalTo (n v : Int64) :
    (Condition.equalTo n).holds (.int v) = (toDouble v == toDouble n) := by
  have hv : (Number.int v).toReal.isNaN = false := Double.isNaN_toDouble v
  have hn : (Condition.equalTo n).bound.isNaN = false := Double.isNaN_toDouble n
  unfold Condition.holds Comparison.holds
  rw [hv, hn]
  rfl

theorem default_eq (faces : Faces) (phase : Phase) :
    Dice.default faces phase = .equalTo (faces.extreme phase) := by
  cases phase <;> rfl

theorem fires_default (faces : Faces) (phase : Phase) (v : Int64) :
    fires (trigger [] (Dice.default faces phase)) v =
      (toDouble v == toDouble (faces.extreme phase)) := by
  rw [default_eq, ← holds_equalTo]
  exact Bool.or_false _

def Names (trigger : List Condition) (faces : Faces) (n : Int64) : Prop :=
  ∀ v ∈ faces, fires trigger v = true ↔ v = n

theorem names_default_iff (faces : Faces) (phase : Phase) :
    Names (trigger [] (Dice.default faces phase)) faces (faces.extreme phase) ↔
      faces.Apart (faces.extreme phase) := by
  simp only [Names, fires_default]
  constructor
  · exact fun h v hv => (h v hv).mp
  · refine fun h v hv => ⟨h v hv, ?_⟩
    rintro rfl
    exact (Double.toDouble_beq_iff _ _).mpr rfl

namespace Hand

inductive Streak (n : Int64) : Nat → Int64 → List Int64 → Prop where
  | done {times : Nat} {v : Int64} (h : v ≠ n ∨ times = 0) : Streak n times v []
  | next {times : Nat} {w : Int64} {vs : List Int64} (rest : Streak n times w vs) :
      Streak n (times + 1) n (w :: vs)

variable {σ : Type} {r : Roller σ} {faces : Faces} {trigger : List Condition} {n v : Int64}
  {vs : List Int64} {times : Nat} {h : Hand}

theorem IsChain.streak (hn : Names trigger faces n) (h : IsChain trigger times v vs)
    (hv : v ∈ faces) (hvs : ∀ w ∈ vs, w ∈ faces) : Streak n times v vs := by
  induction h with
  | done h =>
      refine .done (h.imp_left fun hf heq => ?_)
      rw [(hn _ hv).mpr heq] at hf
      cases hf
  | next hf _ ih =>
      obtain rfl := (hn _ hv).mp hf
      obtain ⟨hw, hvs⟩ := List.forall_mem_cons.mp hvs
      exact .next (ih hw hvs)

theorem exists_streaks (hn : Names trigger faces n) (hr : ∀ s, (r.draw faces s).1 ∈ faces)
    (hh : h.On faces) (times : Nat) (s : σ) :
    ∃ vss s', List.Forall₂ (fun d vs => Streak n times d.value vs) h vss ∧
      r.Draws faces s vss.flatten s' ∧
      ∀ join, expand r faces times trigger join h s = ((h.zipWith join vss).flatten, s') := by
  induction h generalizing s with
  | nil => exact ⟨[], s, .nil, rfl, fun _ => rfl⟩
  | cons d h ih =>
      obtain ⟨hd, hh⟩ := List.forall_mem_cons.mp hh
      obtain ⟨hchain, hdraws⟩ := isChain_chain r faces trigger times d.value s
      obtain ⟨vss, s', hvss, hrest, hjoin⟩ := ih hh (chain r faces trigger times d.value s).2
      refine ⟨_ :: vss, s', .cons (hchain.streak hn hd (Roller.mem_of_draws hr hdraws)) hvss, ?_,
        fun join => ?_⟩
      · exact Roller.draws_append_iff.mpr ⟨_, hdraws, hrest⟩
      · simp only [expand, hjoin, List.zipWith_cons_cons, List.flatten_cons]

def RedrawnAt (n : Int64) (h g : Hand) : Prop :=
  ∀ (i : Nat) (d : Die), h[i]? = some d →
    (d.value ≠ n → g[i]? = some d) ∧
    (d.value = n → ∃ v, g[i]? = some ({ d with value := v }.mark .rerolled))

theorem redrawnAt_reroll (hn : Names trigger faces n) (hh : h.On faces) (htimes : times ≠ 0)
    (s : σ) : h.RedrawnAt n (h.reroll r faces times trigger s).1 := by
  intro i d hd
  obtain ⟨rounds, b, s', hreroll, hb, -⟩ := rounds_reroll r faces times trigger h s
  have hface := hn d.value (hh d (List.mem_of_getElem? hd))
  rw [hreroll]
  refine ⟨fun hne => hb.getElem?_of_not_fires hd (Bool.eq_false_iff.mpr (mt hface.mp hne)),
    fun heq => ?_⟩
  have hf := hface.mpr heq
  obtain ⟨vs, hvs⟩ : ∃ vs, rounds.getLast? = some vs := by
    refine Option.ne_none_iff_exists'.mp fun hnone => ?_
    obtain rfl := List.getLast?_eq_none_iff.mp hnone
    obtain rfl := hb.eq_of_nil
    have hquiet := hb.length_eq_or.resolve_left (Ne.symm htimes)
    have hbatch := getElem?_batch trigger hd
    rw [hf] at hbatch
    rw [fires_eq_false_of_anyFires hquiet hbatch] at hf
    cases hf
  obtain ⟨v, -, hdrawn⟩ := hb.getElem?_of_fires hvs hd hf
  exact ⟨v, hdrawn⟩

end Hand

namespace Phase

def earlier (phase : Phase) : List Phase := all.takeWhile (· ≠ phase)

def later (phase : Phase) : List Phase := (all.dropWhile (· ≠ phase)).tail

theorem all_eq (phase : Phase) : all = phase.earlier ++ phase :: phase.later := by
  cases phase <;> rfl

end Phase

namespace Dice

variable {σ : Type}

def before (r : Roller σ) (d : Dice) (phase : Phase) (s : σ) : Hand × σ :=
  let (drawn, s) := Hand.draw r d.faces d.count s
  applyAll r d.faces d.modifiers phase.earlier drawn s

theorem applyAll_append (r : Roller σ) (faces : Faces) (ms : Modifiers) (ps qs : List Phase)
    (h : Hand) (s : σ) :
    applyAll r faces ms (ps ++ qs) h s =
      applyAll r faces ms qs (applyAll r faces ms ps h s).1 (applyAll r faces ms ps h s).2 := by
  induction ps generalizing h s with
  | nil => rfl
  | cons p ps ih =>
      simp only [List.cons_append, applyAll]
      split
      · exact ih h s
      · exact ih _ _

variable {r : Roller σ} {d : Dice} {phase : Phase} {m : Modifier}

theorem on_before (hr : r.Keeps d.faces) (phase : Phase) (s : σ) :
    (d.before r phase s).1.On d.faces := by
  have hlast : .explodeInto ∉ phase.earlier := by
    cases phase <;> decide
  exact on_applyAll (Hand.on_draw hr d.count s) hr (fun h => absurd h hlast) _

theorem roll_eq_of_get? (hm : d.modifiers.get? phase = some m) (s : σ) :
    let start := d.before r phase s
    let made := apply r d.faces phase m start.1 start.2
    let left := applyAll r d.faces d.modifiers phase.later made.1 made.2
    (d.roll r s).2 = ({ d with hand := left.1.countSuccesses d.conditions }, left.2) := by
  intro start made left
  have hall : applyAll r d.faces d.modifiers Phase.all (Hand.draw r d.faces d.count s).1
      (Hand.draw r d.faces d.count s).2 = left := by
    rw [phase.all_eq, applyAll_append, applyAll, hm]
    rfl
  exact congrArg (fun x => (({ d with hand := x.1.countSuccesses d.conditions } : Dice), x.2)) hall

/-- Without conditions a modifier sets off at the values with the double of an extreme face. That is
this face alone exactly if the one next to it has another double, as it has up to 53 bits. -/
theorem apply_of_extremes {d : Dice} (h : d.faces.low ≤ d.faces.high) :
    (∀ phase v, fires (trigger [] (default d.faces phase)) v =
      (toDouble v == toDouble (d.faces.extreme phase))) ∧
    (∀ phase, (∀ v ∈ d.faces, fires (trigger [] (default d.faces phase)) v = true ↔
      v = d.faces.extreme phase) ↔ d.faces.Apart (d.faces.extreme phase)) ∧
    (d.faces.Apart d.faces.low ↔ d.faces.low = d.faces.high ∨
      (toDouble (d.faces.low + 1) == toDouble d.faces.low) = false) ∧
    (d.faces.Apart d.faces.high ↔ d.faces.low = d.faces.high ∨
      (toDouble (d.faces.high - 1) == toDouble d.faces.high) = false) ∧
    (-2 ^ 53 ≤ d.faces.low.toInt → d.faces.low.toInt < 2 ^ 53 → d.faces.Apart d.faces.low) ∧
    (-2 ^ 53 < d.faces.high.toInt → d.faces.high.toInt ≤ 2 ^ 53 → d.faces.Apart d.faces.high) ∧
    ∀ {σ : Type} (r : Roller σ) (times : Nat),
      (∀ (hand : Hand) (s : σ), hand.On d.faces → d.faces.Apart d.faces.low → times ≠ 0 →
        hand.RedrawnAt d.faces.low (apply r d.faces .reroll ⟨times, []⟩ hand s).1) ∧
      (∀ (hand : Hand) (s : σ), hand.On d.faces → d.faces.Apart d.faces.high →
        (∀ s, (r.draw d.faces s).1 ∈ d.faces) →
        ∃ vss s',
          List.Forall₂ (fun die vs => Hand.Streak d.faces.high times die.value vs) hand vss ∧
          r.Draws d.faces s vss.flatten s' ∧
          apply r d.faces .explode ⟨times, []⟩ hand s =
            ((hand.zipWith Hand.joinBeside vss).flatten, s') ∧
          apply r d.faces .explodeInto ⟨times, []⟩ hand s =
            ((hand.zipWith Hand.joinInto vss).flatten, s')) ∧
      (∀ (p : Pool) (phase : Phase) (s : σ), p.dice? = some d →
        let made := apply r d.faces phase ⟨times, []⟩ d.hand s
        (Operation.ofModifier ⟨times, []⟩ phase).run r p s =
          .ok (p.withDice { d with hand := made.1 }, made.2)) ∧
      ∀ (phase : Phase) (s : σ), d.modifiers.get? phase = some ⟨times, []⟩ → r.Keeps d.faces →
        let start := d.before r phase s
        let made := apply r d.faces phase ⟨times, []⟩ start.1 start.2
        let left := applyAll r d.faces d.modifiers phase.later made.1 made.2
        start.1.On d.faces ∧
          (d.roll r s).2 = ({ d with hand := left.1.countSuccesses d.conditions }, left.2) := by
  refine ⟨fires_default d.faces, names_default_iff d.faces, Faces.apart_low_iff h,
    Faces.apart_high_iff h, Faces.apart_low_of_bounds h, Faces.apart_high_of_bounds h,
    fun r times => ⟨fun hand s hon hapart htimes => ?_, fun hand s hon hapart hr => ?_,
      fun p phase s hp => ?_, fun phase s hm hr => ⟨on_before hr phase s, roll_eq_of_get? hm s⟩⟩⟩
  · exact Hand.redrawnAt_reroll ((names_default_iff d.faces .reroll).mpr hapart) hon htimes s
  · obtain ⟨vss, s', hvss, hdraws, hjoin⟩ :=
      Hand.exists_streaks ((names_default_iff d.faces .explode).mpr hapart) hr hon times s
    exact ⟨vss, s', hvss, hdraws, hjoin Hand.joinBeside, hjoin Hand.joinInto⟩
  · exact Operation.run_ofModifier hp phase ⟨times, []⟩ s

theorem apply_of_extremes_d6 :
    let r : Roller Bool :=
      { draw := fun faces last => (if last then faces.high else faces.low, !last) }
    let d : Dice := { count := 2, faces := Faces.d6, modifiers := { explode := some ⟨3, []⟩ } }
    let hand : Hand := [.fresh 6, .fresh 1]
    d.faces.low ≤ d.faces.high ∧ d.faces.Apart d.faces.low ∧ d.faces.Apart d.faces.high ∧
      r.Keeps d.faces ∧ hand.On d.faces ∧
      hand.RedrawnAt 1 (apply r d.faces .reroll ⟨2, []⟩ hand true).1 ∧
      (∃ vss s', List.Forall₂ (fun die vs => Hand.Streak 6 3 die.value vs) hand vss ∧
        apply r d.faces .explode ⟨3, []⟩ hand true =
          ((hand.zipWith Hand.joinBeside vss).flatten, s')) ∧
      (apply r d.faces .explode ⟨3, []⟩ hand true).1.values = [6, 6, 1, 1] ∧
      (d.before r .explode true).1.On d.faces := by
  intro r d hand
  have h : d.faces.low ≤ d.faces.high := by decide
  have hr : r.Keeps d.faces := Roller.keeps_of_draw (by decide) rfl
  have hon : hand.On d.faces := by
    unfold Hand.On
    decide
  obtain ⟨-, -, -, -, hlow, hhigh, hrun⟩ := apply_of_extremes h
  have hlow := hlow (by decide) (by decide)
  have hhigh := hhigh (by decide) (by decide)
  obtain ⟨hreroll, -⟩ := hrun r 2
  obtain ⟨-, hexplode, -, hroll⟩ := hrun r 3
  obtain ⟨vss, s', hvss, -, hbeside, -⟩ := hexplode hand true hon hhigh hr.draw
  exact ⟨h, hlow, hhigh, hr, hon, hreroll hand true hon hlow (by decide), ⟨vss, s', hvss, hbeside⟩,
    by decide +kernel, (hroll .explode true rfl hr).1⟩

end Dice

namespace Pool

theorem explode_of_rounded_face :
    let faces : Faces := ⟨9223372036854775806, 9223372036854775807⟩
    let r := Roller.replay [9223372036854775806]
    let p : Pool := ⟨"1d[9223372036854775806,9223372036854775807]", .dice
      { count := 1, faces, hand := [.fresh 9223372036854775806] }⟩
    let die : Die := ⟨9223372036854775806, true, ⟨[.exploded]⟩⟩
    faces.low ≤ faces.high ∧ 9223372036854775806 ∈ faces ∧ 9223372036854775806 ≠ faces.high ∧
      fires (trigger [] (Dice.default faces .explode)) 9223372036854775806 = true ∧
      (p.explode r 1 [] 1).map (fun (q, s) => (q.hand, s)) = .ok ([die, die], 2) := by
  decide +kernel

end Pool

end DiceTray

import DiceTray.Proofs.Pool.Score

namespace DiceTray

def Rearranged (cs ds : List Condition) : Prop := ∀ c, c ∈ cs ↔ c ∈ ds

structure JudgeAlike (cs ds : List Condition) : Prop where
  rearranged : Rearranged cs ds
  isFailure : ∀ v, Hand.isFailure cs v = Hand.isFailure ds v

namespace Rearranged

variable {cs ds : List Condition}

theorem refl (cs : List Condition) : Rearranged cs cs := fun _ => Iff.rfl

theorem nil_iff (h : Rearranged cs ds) : cs = [] ↔ ds = [] := by
  rw [List.eq_nil_iff_forall_not_mem, List.eq_nil_iff_forall_not_mem]
  exact forall_congr' fun c => not_congr (h c)

theorem isEmpty_eq (h : Rearranged cs ds) : cs.isEmpty = ds.isEmpty := by
  rw [Bool.eq_iff_iff, List.isEmpty_iff, List.isEmpty_iff]
  exact h.nil_iff

theorem anyHolds_eq (h : Rearranged cs ds) (value : Number) :
    anyHolds cs value = anyHolds ds value := by
  rw [anyHolds, anyHolds, Bool.eq_iff_iff, List.any_eq_true, List.any_eq_true]
  exact exists_congr fun c => and_congr_left fun _ => h c

theorem verdict?_eq (h : Rearranged cs ds) (value : Number) :
    verdict? cs value = verdict? ds value := by
  rw [verdict?, verdict?, h.isEmpty_eq, h.anyHolds_eq]

theorem anyHolds_trigger (h : Rearranged cs ds) (default : Condition) (value : Number) :
    anyHolds (trigger cs default) value = anyHolds (trigger ds default) value := by
  rw [trigger, trigger, h.isEmpty_eq]
  split
  · rfl
  · exact h.anyHolds_eq value

theorem fires_trigger (h : Rearranged cs ds) (default : Condition) :
    fires (trigger cs default) = fires (trigger ds default) :=
  funext fun v => h.anyHolds_trigger default (.int v)

theorem find?_isNegate (h : Rearranged cs ds)
    (hone : ∀ c ∈ cs, ∀ d ∈ cs, c.isNegate = true → d.isNegate = true → c = d) :
    cs.find? Condition.isNegate = ds.find? Condition.isNegate := by
  cases hc : cs.find? Condition.isNegate with
  | none =>
      rw [List.find?_eq_none] at hc
      exact (List.find?_eq_none.mpr fun d hd => hc d ((h d).mpr hd)).symm
  | some c =>
      have hmem := List.mem_of_find?_eq_some hc
      have hnegate := List.find?_some hc
      cases hd : ds.find? Condition.isNegate with
      | none => exact absurd hnegate (List.find?_eq_none.mp hd c ((h c).mp hmem))
      | some d =>
          have hmem' := (h d).mpr (List.mem_of_find?_eq_some hd)
          exact congrArg some (hone c hmem d hmem' hnegate (List.find?_some hd))

theorem isFailure_eq (h : Rearranged cs ds)
    (hone : ∀ c ∈ cs, ∀ d ∈ cs, c.isNegate = true → d.isNegate = true → c = d) (v : Int64) :
    Hand.isFailure cs v = Hand.isFailure ds v := by
  rw [Hand.isFailure, Hand.failure?, h.find?_isNegate hone]
  rfl

end Rearranged

theorem JudgeAlike.refl (cs : List Condition) : JudgeAlike cs cs := ⟨.refl cs, fun _ => rfl⟩

namespace Hand

section Triggers

variable {σ : Type} {t t' : List Condition}

theorem chain_congr (h : fires t = fires t') (r : Roller σ) (faces : Faces) (times : Nat)
    (last : Int64) (s : σ) : chain r faces t times last s = chain r faces t' times last s := by
  induction times generalizing last s with
  | zero => rfl
  | succ times ih => simp only [chain, h, ih]

theorem expand_congr (h : fires t = fires t') (r : Roller σ) (faces : Faces) (times : Nat)
    (join : Die → List Int64 → Hand) (hand : Hand) (s : σ) :
    expand r faces times t join hand s = expand r faces times t' join hand s := by
  induction hand generalizing s with
  | nil => rfl
  | cons d rest ih => simp only [expand, chain_congr h, ih]

theorem redrawWhile_congr (h : fires t = fires t') (r : Roller σ) (faces : Faces) (times : Nat)
    (b : List (Bool × Die)) (s : σ) :
    redrawWhile r faces t times b s = redrawWhile r faces t' times b s := by
  induction times generalizing b s with
  | zero => rfl
  | succ times ih => simp only [redrawWhile, h, ih]

theorem reroll_congr (h : fires t = fires t') (r : Roller σ) (faces : Faces) (times : Nat)
    (hand : Hand) (s : σ) : hand.reroll r faces times t s = hand.reroll r faces times t' s := by
  rw [reroll, reroll, h, redrawWhile_congr h]

end Triggers

variable {cs ds : List Condition}

theorem judge_eq (h : JudgeAlike cs ds) (d : Die) : judge cs d = judge ds d := by
  rw [judge, judge, h.isFailure, h.rearranged.anyHolds_eq]

theorem countSuccesses_eq (h : JudgeAlike cs ds) (hand : Hand) :
    hand.countSuccesses cs = hand.countSuccesses ds := by
  rw [countSuccesses, countSuccesses, h.rearranged.isEmpty_eq, funext (judge_eq h)]

theorem has_failure_judge_fresh (cs : List Condition) (v : Int64) :
    (judge cs (.fresh v)).marks.has .failure = isFailure cs v := by
  rw [judge]
  cases hf : isFailure cs (Die.fresh v).value with
  | true => exact hf.symm
  | false =>
      refine Eq.trans ?_ hf.symm
      split
      · rename_i h
        cases h
      · split <;> rfl

theorem isFailure_of_countSuccesses (h : Rearranged cs ds) (v : Int64)
    (hv : countSuccesses cs [.fresh v] = countSuccesses ds [.fresh v]) :
    isFailure cs v = isFailure ds v := by
  by_cases hc : cs = []
  · rw [hc, h.nil_iff.mp hc]
  · have hd : ds ≠ [] := fun hd => hc (h.nil_iff.mpr hd)
    rw [countSuccesses, countSuccesses, if_neg (by simpa using hc),
      if_neg (by simpa using hd)] at hv
    have hjudge : judge cs (.fresh v) = judge ds (.fresh v) := List.head_eq_of_cons_eq hv
    rw [← has_failure_judge_fresh, hjudge, has_failure_judge_fresh]

end Hand

structure Modifier.Rearranged (m n : Modifier) : Prop where
  magnitude : m.magnitude = n.magnitude
  conditions : DiceTray.Rearranged m.conditions n.conditions

theorem Modifier.rearranged_mk {cs ds : List Condition} (h : DiceTray.Rearranged cs ds)
    (times : Nat) : Modifier.Rearranged ⟨times, cs⟩ ⟨times, ds⟩ := ⟨rfl, h⟩

theorem Modifier.Rearranged.refl (m : Modifier) : m.Rearranged m := ⟨rfl, .refl m.conditions⟩

structure Dice.Rearranged (d e : Dice) : Prop where
  count : d.count = e.count
  faces : d.faces = e.faces
  hand : d.hand = e.hand
  modifiers : ∀ phase,
    Option.Rel Modifier.Rearranged (d.modifiers.get? phase) (e.modifiers.get? phase)
  conditions : JudgeAlike d.conditions e.conditions

namespace Dice

variable {σ : Type} {d e : Dice} {m n : Modifier} {ms ns : Modifiers}

theorem Rearranged.refl (d : Dice) : d.Rearranged d where
  count := rfl
  faces := rfl
  hand := rfl
  modifiers phase := by
    cases d.modifiers.get? phase with
    | none => exact .none
    | some m => exact .some (.refl m)
  conditions := .refl d.conditions

theorem Rearranged.withHand (h : d.Rearranged e) {g g' : Hand} (hg : g = g') :
    Rearranged { d with hand := g } { e with hand := g' } :=
  ⟨h.count, h.faces, hg, h.modifiers, h.conditions⟩

theorem apply_eq (h : m.Rearranged n) (r : Roller σ) (faces : Faces) (phase : Phase) (g : Hand)
    (s : σ) : apply r faces phase m g s = apply r faces phase n g s := by
  have hfires := h.conditions.fires_trigger (default faces phase)
  cases phase with
  | keepHigh => simp only [apply, h.magnitude]
  | keepLow => simp only [apply, h.magnitude]
  | reroll =>
      simp only [apply, h.magnitude]
      exact Hand.reroll_congr hfires ..
  | explode =>
      simp only [apply, h.magnitude]
      exact Hand.expand_congr hfires ..
  | explodeInto =>
      simp only [apply, h.magnitude]
      exact Hand.expand_congr hfires ..

theorem applyAll_eq
    (h : ∀ phase, Option.Rel Modifier.Rearranged (ms.get? phase) (ns.get? phase))
    (r : Roller σ) (faces : Faces) (phases : List Phase) (g : Hand) (s : σ) :
    applyAll r faces ms phases g s = applyAll r faces ns phases g s := by
  induction phases generalizing g s with
  | nil => rfl
  | cons phase phases ih =>
      have hphase := h phase
      rw [applyAll, applyAll]
      generalize ms.get? phase = m, ns.get? phase = n at hphase
      cases hphase with
      | none => exact ih g s
      | some hmn => simp only [apply_eq hmn, ih]

theorem Rearranged.roll (h : d.Rearranged e) (r : Roller σ) (s : σ) :
    (d.roll r s).2.1.Rearranged (e.roll r s).2.1 ∧ (d.roll r s).2.2 = (e.roll r s).2.2 := by
  have happlied :
      applyAll r d.faces d.modifiers Phase.all (Hand.draw r d.faces d.count s).1
          (Hand.draw r d.faces d.count s).2 =
        applyAll r e.faces e.modifiers Phase.all (Hand.draw r e.faces e.count s).1
          (Hand.draw r e.faces e.count s).2 := by
    rw [h.faces, h.count, applyAll_eq h.modifiers]
  have hhand := congrArg (fun x => Hand.countSuccesses d.conditions x.1) happlied
  have hstate := congrArg Prod.snd happlied
  exact ⟨h.withHand (hhand.trans (Hand.countSuccesses_eq h.conditions _)), hstate⟩

theorem Rearranged.setModifier (h : d.Rearranged e) (hm : m.Rearranged n) (phase : Phase) :
    Rearranged { d with modifiers := d.modifiers.set m phase }
      { e with modifiers := e.modifiers.set n phase } := by
  refine ⟨h.count, h.faces, h.hand, fun phase' => ?_, h.conditions⟩
  rw [Modifiers.get?_set, Modifiers.get?_set]
  split
  · exact .some hm
  · exact h.modifiers phase'

end Dice

namespace Pool

inductive Rearranged : Pool → Pool → Prop where
  | fixed (source : String) (value : Number) :
      Rearranged ⟨source, .fixed value⟩ ⟨source, .fixed value⟩
  | dice (source : String) {d e : Dice} (h : d.Rearranged e) :
      Rearranged ⟨source, .dice d⟩ ⟨source, .dice e⟩
  | stunt (source : String) {d e : Dice} (h : d.Rearranged e) :
      Rearranged ⟨source, .stunt d⟩ ⟨source, .stunt e⟩

inductive SameOutcome {σ : Type} : Except Fault (Pool × σ) → Except Fault (Pool × σ) → Prop where
  | refused (f : Fault) : SameOutcome (.error f) (.error f)
  | done {p q : Pool} (h : p.Rearranged q) (s : σ) : SameOutcome (.ok (p, s)) (.ok (q, s))

variable {σ : Type} {p q : Pool}

theorem Rearranged.refl (p : Pool) : p.Rearranged p := by
  rcases p with ⟨source, value | d | d⟩
  · exact .fixed source value
  · exact .dice source (.refl d)
  · exact .stunt source (.refl d)

theorem Rearranged.hand_eq (h : p.Rearranged q) : p.hand = q.hand := by
  cases h with
  | fixed => rfl
  | dice _ h => exact h.hand
  | stunt _ h => exact h.hand

theorem Rearranged.roll (h : p.Rearranged q) (r : Roller σ) (s : σ) :
    SameOutcome (.ok (p.roll r s).2) (.ok (q.roll r s).2) := by
  cases h with
  | fixed => exact .done (.fixed ..) s
  | @dice source d e h =>
      obtain ⟨hd, hs⟩ := h.roll r s
      simp only [Pool.roll, hs]
      exact .done (.dice source hd) _
  | @stunt source d e h =>
      obtain ⟨hd, hs⟩ := h.roll r s
      simp only [Pool.roll, hs]
      exact .done (.stunt source hd) _

theorem Rearranged.change (h : p.Rearranged q) {f g : Dice → Dice} (s : σ)
    (hfg : ∀ d e : Dice, d.Rearranged e → (f d).Rearranged (g e)) :
    SameOutcome ((p.change f).map fun p => (p, s)) ((q.change g).map fun q => (q, s)) := by
  cases h with
  | fixed => exact .refused _
  | @dice source d e h => exact .done (.dice source (hfg d e h)) s
  | @stunt source d e h => exact .done (.stunt source (hfg d e h)) s

theorem SameOutcome.map_eq {x y : Except Fault (Pool × σ)} (h : SameOutcome x y) :
    x.map (fun (p, s) => (p.hand, s)) = y.map fun (p, s) => (p.hand, s) := by
  cases h with
  | refused => rfl
  | done h s => exact congrArg (fun hand => Except.ok (hand, s)) h.hand_eq

end Pool

namespace Operation

inductive Rearranged : Operation → Operation → Prop where
  | ofModifier (phase : Phase) {m n : Modifier} (h : m.Rearranged n) :
      Rearranged (.ofModifier m phase) (.ofModifier n phase)
  | countSuccesses {cs ds : List Condition} (h : JudgeAlike cs ds) :
      Rearranged (.countSuccesses cs) (.countSuccesses ds)
  | setModifier (phase : Phase) {m n : Modifier} (h : m.Rearranged n) :
      Rearranged (.setModifier phase m) (.setModifier phase n)
  | setConditions {cs ds : List Condition} (h : JudgeAlike cs ds) :
      Rearranged (.setConditions cs) (.setConditions ds)
  | roll : Rearranged .roll .roll

variable {σ : Type} {r : Roller σ} {p q : Pool} {op op' : Operation} {ops ops' : List Operation}

theorem run_ofModifier_eq {m n : Modifier} (h : m.Rearranged n) (phase : Phase) (r : Roller σ)
    (p : Pool) (s : σ) : (ofModifier m phase).run r p s = (ofModifier n phase).run r p s := by
  rcases p with ⟨source, value | d | d⟩
  · cases phase <;> rfl
  · rw [run_ofModifier (d := d) rfl, run_ofModifier (d := d) rfl, Dice.apply_eq h]
  · rw [run_ofModifier (d := d) rfl, run_ofModifier (d := d) rfl, Dice.apply_eq h]

theorem sameOutcome_ofModifier (m : Modifier) (phase : Phase) (h : p.Rearranged q) (s : σ) :
    Pool.SameOutcome ((ofModifier m phase).run r p s) ((ofModifier m phase).run r q s) := by
  have happly {d e : Dice} (h : d.Rearranged e) :
      Dice.apply r d.faces phase m d.hand s = Dice.apply r e.faces phase m e.hand s := by
    rw [h.faces, h.hand]
  cases h with
  | fixed => cases phase <;> exact .refused _
  | @dice source d e h =>
      rw [run_ofModifier (d := d) rfl, run_ofModifier (d := e) rfl, happly h]
      exact .done (.dice source (h.withHand rfl)) _
  | @stunt source d e h =>
      rw [run_ofModifier (d := d) rfl, run_ofModifier (d := e) rfl, happly h]
      exact .done (.stunt source (h.withHand rfl)) _

theorem sameOutcome_run (hop : op.Rearranged op') (h : p.Rearranged q) (s : σ) :
    Pool.SameOutcome (op.run r p s) (op'.run r q s) := by
  cases hop with
  | ofModifier phase hm =>
      rw [run_ofModifier_eq hm]
      exact sameOutcome_ofModifier _ phase h s
  | countSuccesses hc =>
      refine h.change s fun d e hde => hde.withHand ?_
      rw [hde.hand, Hand.countSuccesses_eq hc]
  | setModifier phase hm => exact h.change s fun d e hde => hde.setModifier hm phase
  | setConditions hc =>
      exact h.change s fun d e hde => ⟨hde.count, hde.faces, hde.hand, hde.modifiers, hc⟩
  | roll => exact h.roll r s

theorem sameOutcome_runAll (hops : List.Forall₂ Rearranged ops ops') (h : p.Rearranged q) (s : σ) :
    Pool.SameOutcome (runAll r ops p s) (runAll r ops' q s) := by
  induction hops generalizing p q s with
  | nil => exact .done h s
  | @cons op op' _ _ hop _ ih =>
      rw [runAll, runAll]
      have hstep := sameOutcome_run (r := r) hop h s
      generalize op.run r p s = x, op'.run r q s = y at hstep
      cases hstep with
      | refused f => exact .refused f
      | done h s => exact ih h s

/-- In any order, conditions hold of the same values and set the same operations off, at once as
well as in a roll. They judge alike exactly if the same values are failures to both, as they are
where the conditions on failures are one and the same. -/
theorem runAll_of_rearranged {cs ds : List Condition} (h : DiceTray.Rearranged cs ds) :
    (∀ value, verdict? cs value = verdict? ds value ∧
      ∀ default, anyHolds (trigger cs default) value = anyHolds (trigger ds default) value) ∧
    (∀ {σ : Type} (r : Roller σ) (times : Nat) (p : Pool) (s : σ),
      p.reroll r times cs s = p.reroll r times ds s ∧
      p.explode r times cs s = p.explode r times ds s ∧
      p.explodeInto r times cs s = p.explodeInto r times ds s) ∧
    ((∀ p : Pool, p.countSuccesses cs = p.countSuccesses ds) ↔
      ∀ v, Hand.isFailure cs v = Hand.isFailure ds v) ∧
    ((∀ c ∈ cs, ∀ d ∈ cs, c.isNegate = true → d.isNegate = true → c = d) →
      ∀ v, Hand.isFailure cs v = Hand.isFailure ds v) ∧
    ∀ {σ : Type} (r : Roller σ) (ops ops' : List Operation) (p : Pool) (s : σ),
      List.Forall₂ Rearranged ops ops' →
      (runAll r ops p s).map (fun (q, s') => (q.hand, s')) =
        (runAll r ops' p s).map fun (q, s') => (q.hand, s') := by
  refine ⟨fun value => ⟨h.verdict?_eq value, fun default => h.anyHolds_trigger default value⟩,
    fun r times p s => ⟨?_, ?_, ?_⟩, ⟨fun hcount v => ?_, fun hfailure p => ?_⟩, h.isFailure_eq,
    fun r ops ops' p s hops => (sameOutcome_runAll hops (.refl p) s).map_eq⟩
  · exact run_ofModifier_eq (Modifier.rearranged_mk h times) .reroll r p s
  · exact run_ofModifier_eq (Modifier.rearranged_mk h times) .explode r p s
  · exact run_ofModifier_eq (Modifier.rearranged_mk h times) .explodeInto r p s
  · have hv := hcount ⟨"", .dice { count := 1, faces := ⟨v, v⟩, hand := [.fresh v] }⟩
    exact Hand.isFailure_of_countSuccesses h v (congrArg Pool.hand (Except.ok.inj hv))
  · simp only [Pool.countSuccesses, Dice.countSuccesses, Hand.countSuccesses_eq ⟨h, hfailure⟩]

theorem runAll_of_rearranged_one_failure :
    let five : Condition := ⟨.greaterEqual, toDouble 5⟩
    let one : Condition := ⟨.negate, toDouble 1⟩
    let cs := [five, one]
    let ds := [one, five, one]
    let r := Roller.replay [6, 1, 3, 2]
    let p : Pool := ⟨"3d6", .dice { count := 3, faces := Faces.d6 }⟩
    let attach (cs : List Condition) : List Operation :=
      [.setConditions cs, .setModifier .explode ⟨1, cs⟩, .roll]
    DiceTray.Rearranged cs ds ∧
      (∀ c ∈ cs, ∀ d ∈ cs, c.isNegate = true → d.isNegate = true → c = d) ∧
      List.Forall₂ Rearranged (attach cs) (attach ds) ∧
      (runAll r (attach ds) p 0).map (fun (q, s') => (q.hand, s')) =
        .ok ([⟨1, true, ⟨[.exploded, .success]⟩⟩, ⟨2, false, ⟨[.exploded]⟩⟩,
          ⟨-1, true, ⟨[.failure]⟩⟩, ⟨3, false, {}⟩], 4) := by
  intro five one cs ds r p attach
  have h : DiceTray.Rearranged cs ds := by
    intro c
    simp only [cs, ds, List.mem_cons, List.not_mem_nil, or_false]
    exact ⟨Or.inr, fun hc => hc.elim Or.inr id⟩
  have hone : ∀ c ∈ cs, ∀ d ∈ cs, c.isNegate = true → d.isNegate = true → c = d := by
    simp [cs, five, one, Condition.isNegate]
  obtain ⟨-, -, -, hfailure, hrun⟩ := runAll_of_rearranged h
  have halike : JudgeAlike cs ds := ⟨h, hfailure hone⟩
  have hops : List.Forall₂ Rearranged (attach cs) (attach ds) :=
    .cons (.setConditions halike) (.cons (.setModifier .explode ⟨rfl, h⟩) (.cons .roll .nil))
  refine ⟨h, hone, hops, (hrun r _ _ p 0 hops).symm.trans ?_⟩
  decide +kernel

end Operation

namespace Pool

theorem countSuccesses_of_two_failures :
    let one : Condition := ⟨.negate, toDouble 1⟩
    let two : Condition := ⟨.negate, toDouble 2⟩
    let p : Pool := ⟨"2d6", .dice { count := 2, faces := Faces.d6, hand := [.fresh 1, .fresh 2] }⟩
    DiceTray.Rearranged [one, two] [two, one] ∧
      (p.countSuccesses [one, two]).map hand =
        .ok [⟨-1, true, ⟨[.failure]⟩⟩, ⟨2, false, {}⟩] ∧
      (p.countSuccesses [two, one]).map hand =
        .ok [⟨1, false, {}⟩, ⟨-1, true, ⟨[.failure]⟩⟩] := by
  intro one two p
  exact ⟨fun c => by simp [or_comm], by decide +kernel, by decide +kernel⟩

end Pool

end DiceTray

import DiceTray.Proofs.Pool.Attached

namespace DiceTray

inductive Operation where
  | keepHigh (n : Nat)
  | keepLow (n : Nat)
  | reroll (times : Nat) (conditions : List Condition)
  | explode (times : Nat) (conditions : List Condition)
  | explodeInto (times : Nat) (conditions : List Condition)
  | countSuccesses (conditions : List Condition)
  | setModifier (phase : Phase) (m : Modifier)
  | setConditions (conditions : List Condition)
  | roll

namespace Operation

variable {σ : Type}

def run (r : Roller σ) (p : Pool) (s : σ) : Operation → Except Fault (Pool × σ)
  | .keepHigh n => (p.keepHigh n).map fun q => (q, s)
  | .keepLow n => (p.keepLow n).map fun q => (q, s)
  | .reroll times conditions => p.reroll r times conditions s
  | .explode times conditions => p.explode r times conditions s
  | .explodeInto times conditions => p.explodeInto r times conditions s
  | .countSuccesses conditions => (p.countSuccesses conditions).map fun q => (q, s)
  | .setModifier phase m => (p.setModifier phase m).map fun q => (q, s)
  | .setConditions conditions => (p.setConditions conditions).map fun q => (q, s)
  | .roll => .ok (p.roll r s).2

def runAll (r : Roller σ) : List Operation → Pool → σ → Except Fault (Pool × σ)
  | [], p, s => .ok (p, s)
  | op :: ops, p, s => (op.run r p s).bind fun (p, s) => runAll r ops p s

def ofModifiers (ms : Modifiers) : List Operation :=
  (ms.keepHigh.map fun m => keepHigh m.magnitude).toList ++
    (ms.keepLow.map fun m => keepLow m.magnitude).toList ++
    (ms.reroll.map fun m => reroll m.magnitude m.conditions).toList ++
    (ms.explode.map fun m => explode m.magnitude m.conditions).toList ++
    (ms.explodeInto.map fun m => explodeInto m.magnitude m.conditions).toList

def ofModifier (m : Modifier) : Phase → Operation
  | .keepHigh => keepHigh m.magnitude
  | .keepLow => keepLow m.magnitude
  | .reroll => reroll m.magnitude m.conditions
  | .explode => explode m.magnitude m.conditions
  | .explodeInto => explodeInto m.magnitude m.conditions

def attaches? (phase : Phase) : Operation → Option Modifier
  | .setModifier phase' m => if phase' = phase then some m else none
  | _ => none

def judges? : Operation → Option (List Condition)
  | .setConditions conditions => some conditions
  | _ => none

theorem ofModifiers_eq (ms : Modifiers) :
    ofModifiers ms =
      Phase.all.filterMap fun phase => (ms.get? phase).map fun m => ofModifier m phase := by
  rcases ms with ⟨_ | _, _ | _, _ | _, _ | _, _ | _⟩ <;> rfl

variable {r : Roller σ} {p q : Pool} {s s' : σ} {d : Dice}

theorem runAll_append (ops ops' : List Operation) :
    runAll r (ops ++ ops') p s =
      (runAll r ops p s).bind fun (p, s) => runAll r ops' p s := by
  induction ops generalizing p s with
  | nil => rfl
  | cons op ops ih =>
      simp only [List.cons_append, runAll]
      cases op.run r p s with
      | error f => rfl
      | ok next => exact ih

theorem run_ofModifier (h : p.dice? = some d) (phase : Phase) (m : Modifier) (s : σ) :
    (ofModifier m phase).run r p s =
      .ok (p.withDice { d with hand := (Dice.apply r d.faces phase m d.hand s).1 },
        (Dice.apply r d.faces phase m d.hand s).2) := by
  cases phase with
  | keepHigh => exact congrArg (Except.map _) (Pool.change_of_dice h _)
  | keepLow => exact congrArg (Except.map _) (Pool.change_of_dice h _)
  | reroll => exact Pool.changeFrom_of_dice h (Dice.reroll r m.magnitude m.conditions) s
  | explode => exact Pool.changeFrom_of_dice h (Dice.explode r m.magnitude m.conditions) s
  | explodeInto => exact Pool.changeFrom_of_dice h (Dice.explodeInto r m.magnitude m.conditions) s

theorem runAll_phases (h : p.dice? = some d) (ms : Modifiers) (phases : List Phase) (s : σ) :
    runAll r (phases.filterMap fun phase => (ms.get? phase).map fun m => ofModifier m phase) p s =
      .ok (p.withDice { d with hand := (Dice.applyAll r d.faces ms phases d.hand s).1 },
        (Dice.applyAll r d.faces ms phases d.hand s).2) := by
  induction phases generalizing p d s with
  | nil => exact congrArg (fun q => Except.ok (q, s)) (Pool.withDice_self h).symm
  | cons phase phases ih =>
      cases hm : ms.get? phase with
      | none =>
          rw [List.filterMap_cons_none (by simp [hm]), ih h]
          simp only [Dice.applyAll, hm]
      | some m =>
          rw [List.filterMap_cons_some (by simp [hm]; rfl), runAll, run_ofModifier h]
          have ih := ih (Pool.dice?_withDice h
            { d with hand := (Dice.apply r d.faces phase m d.hand s).1 })
            (Dice.apply r d.faces phase m d.hand s).2
          simp only [Pool.withDice_withDice] at ih
          simp only [Dice.applyAll, hm]
          exact ih

theorem exists_of_run {op : Operation} (h : p.dice? = some d) (hq : op.run r p s = .ok (q, s')) :
    ∃ e, q = p.withDice e ∧ e.count = d.count ∧ e.faces = d.faces ∧
      (∀ phase, e.modifiers.get? phase = (op.attaches? phase).or (d.modifiers.get? phase)) ∧
      e.conditions = op.judges?.getD d.conditions := by
  have hchange (f : Dice → Dice) (hf : ((p.change f).map fun q => (q, s)) = .ok (q, s')) :
      q = p.withDice (f d) := by
    rw [Pool.change_of_dice h] at hf
    cases hf
    rfl
  have hfrom (f : Dice → σ → Dice × σ) (hf : p.changeFrom f s = .ok (q, s')) :
      q = p.withDice (f d s).1 := by
    rw [Pool.changeFrom_of_dice h] at hf
    cases hf
    rfl
  cases op with
  | keepHigh n => exact ⟨_, hchange _ hq, rfl, rfl, fun _ => rfl, rfl⟩
  | keepLow n => exact ⟨_, hchange _ hq, rfl, rfl, fun _ => rfl, rfl⟩
  | reroll times conditions =>
      exact ⟨_, hfrom (Dice.reroll r times conditions) hq, rfl, rfl, fun _ => rfl, rfl⟩
  | explode times conditions =>
      exact ⟨_, hfrom (Dice.explode r times conditions) hq, rfl, rfl, fun _ => rfl, rfl⟩
  | explodeInto times conditions =>
      exact ⟨_, hfrom (Dice.explodeInto r times conditions) hq, rfl, rfl, fun _ => rfl, rfl⟩
  | countSuccesses conditions => exact ⟨_, hchange _ hq, rfl, rfl, fun _ => rfl, rfl⟩
  | setModifier phase m =>
      refine ⟨_, hchange _ hq, rfl, rfl, fun phase' => ?_, rfl⟩
      rw [Modifiers.get?_set, attaches?]
      by_cases hp : phase' = phase
      · simp [hp]
      · simp [hp, Ne.symm hp]
  | setConditions conditions => exact ⟨_, hchange _ hq, rfl, rfl, fun _ => rfl, rfl⟩
  | roll =>
      rw [run, Pool.roll_of_dice h] at hq
      cases hq
      exact ⟨_, rfl, rfl, rfl, fun _ => rfl, rfl⟩

theorem exists_of_runAll {ops : List Operation} (h : p.dice? = some d)
    (hq : runAll r ops p s = .ok (q, s')) :
    ∃ e, q = p.withDice e ∧ e.count = d.count ∧ e.faces = d.faces ∧
      (∀ phase, e.modifiers.get? phase =
        (ops.filterMap (attaches? phase)).getLast?.or (d.modifiers.get? phase)) ∧
      e.conditions = (ops.filterMap judges?).getLast?.getD d.conditions := by
  induction ops generalizing p d s with
  | nil =>
      cases hq
      exact ⟨d, (Pool.withDice_self h).symm, rfl, rfl, fun _ => rfl, rfl⟩
  | cons op ops ih =>
      cases hop : op.run r p s with
      | error f => simp [runAll, hop, Except.bind] at hq
      | ok next =>
          simp only [runAll, hop, Except.bind] at hq
          obtain ⟨e, he, hec, hef, hem, hej⟩ := exists_of_run h hop
          obtain ⟨e', he', hec', hef', hem', hej'⟩ := ih (he ▸ Pool.dice?_withDice h e) hq
          refine ⟨e', ?_, hec'.trans hec, hef'.trans hef, fun phase => ?_, ?_⟩
          · rw [he', he, Pool.withDice_withDice]
          · rw [hem', hem, getLast?_filterMap_cons, Option.or_assoc]
          · rw [hej', hej, getLast?_filterMap_cons, Option.getD_or]

end Operation

namespace Pool

variable {σ : Type} {p q : Pool} {d e : Dice} {count : Nat} {faces : Faces}

theorem values_draw (r : Roller σ) (faces : Faces) (count : Nat) (s : σ) :
    (Hand.draw r faces count s).1.values = (r.drawMany faces count s).1 := by
  have hfresh : Die.value ∘ Die.fresh = id := rfl
  simp [Hand.draw, Hand.values, hfresh]

theorem runAll_of_dice (h : p.dice? = some d) (r : Roller σ) (s : σ) :
    let drawn := Hand.draw r d.faces d.count s
    Operation.runAll r (Operation.ofModifiers d.modifiers ++ [.countSuccesses d.conditions])
        (p.withDice { d with hand := drawn.1 }) drawn.2 =
      .ok (p.withDice (d.roll r s).2.1, (d.roll r s).2.2) := by
  intro drawn
  have hdrawn := dice?_withDice h { d with hand := drawn.1 }
  rw [Operation.ofModifiers_eq, Operation.runAll_append, Operation.runAll_phases hdrawn]
  simp only [Except.bind, Operation.runAll, Operation.run, withDice_withDice, countSuccesses]
  rw [change_of_dice (dice?_withDice h _)]
  simp only [Except.map, withDice_withDice]
  rfl

theorem dice_roll_congr (hc : e.count = d.count) (hf : e.faces = d.faces)
    (hm : ∀ phase, e.modifiers.get? phase = d.modifiers.get? phase)
    (hj : e.conditions = d.conditions) (r : Roller σ) (s : σ) : e.roll r s = d.roll r s := by
  have hm := Modifiers.ext_get? hm
  cases d
  cases e
  cases hc
  cases hf
  cases hm
  cases hj
  rfl

theorem roll_eq_runAll (h : denotation p = .dice count faces) (r : Roller σ) (s : σ) :
    let drawn := r.drawMany faces count s
    (p.roll r s).1 = drawn.1.map .int ∧
      Operation.runAll r (Operation.ofModifiers p.modifiers ++ [.countSuccesses p.conditions])
          (p.withHand (drawn.1.map Die.fresh)) drawn.2 = .ok (p.roll r s).2 ∧
      (∀ q, denotation q = denotation p →
        (∀ phase, q.modifiers.get? phase = p.modifiers.get? phase) →
        q.conditions = p.conditions →
        (q.roll r s).1 = (p.roll r s).1 ∧ (q.roll r s).2.1.hand = (p.roll r s).2.1.hand ∧
          (q.roll r s).2.2 = (p.roll r s).2.2) ∧
      ∀ {τ τ' : Type} (r₁ : Roller τ) (r₂ : Roller τ') (ops₁ ops₂ : List Operation)
        (s₁ t₁ : τ) (s₂ t₂ : τ') (p₁ p₂ : Pool),
        Operation.runAll r₁ ops₁ p s₁ = .ok (p₁, t₁) →
        Operation.runAll r₂ ops₂ p s₂ = .ok (p₂, t₂) →
        (∀ phase, (ops₁.filterMap (Operation.attaches? phase)).getLast? =
          (ops₂.filterMap (Operation.attaches? phase)).getLast?) →
        (ops₁.filterMap Operation.judges?).getLast? = (ops₂.filterMap Operation.judges?).getLast? →
        p₁.roll r s = p₂.roll r s := by
  obtain ⟨d, hd, rfl, rfl⟩ := exists_dice_of_denotation h
  intro drawn
  have hp := roll_of_dice hd r s
  refine ⟨?_, ?_, fun q hq hm hc => ?_, fun r₁ r₂ ops₁ ops₂ s₁ t₁ s₂ t₂ p₁ p₂ h₁ h₂ hm hj => ?_⟩
  · rw [hp]
    exact congrArg (List.map Number.int) (values_draw r d.faces d.count s)
  · have hrun := runAll_of_dice hd r s
    rw [hp, ← hrun]
    simp only [modifiers, conditions, withHand, hd]
    rfl
  · obtain ⟨e, he, hcount, hfaces⟩ := exists_dice_of_denotation (hq.trans h)
    have hroll : e.roll r s = d.roll r s := by
      refine dice_roll_congr hcount hfaces ?_ ?_ r s
      · simpa only [modifiers, he, hd] using hm
      · simpa only [conditions, he, hd] using hc
    rw [hp, roll_of_dice he, hroll]
    refine ⟨rfl, ?_, rfl⟩
    simp only [hand, dice?_withDice he, dice?_withDice hd]
  · obtain ⟨e₁, rfl, hc₁, hf₁, hm₁, hj₁⟩ := Operation.exists_of_runAll hd h₁
    obtain ⟨e₂, rfl, hc₂, hf₂, hm₂, hj₂⟩ := Operation.exists_of_runAll hd h₂
    have hroll : e₁.roll r s = e₂.roll r s := by
      refine dice_roll_congr (hc₁.trans hc₂.symm) (hf₁.trans hf₂.symm) (fun phase => ?_) ?_ r s
      · rw [hm₁, hm₂, hm]
      · rw [hj₁, hj₂, hj]
    rw [roll_of_dice (dice?_withDice hd e₁), roll_of_dice (dice?_withDice hd e₂), hroll,
      withDice_withDice, withDice_withDice]

theorem roll_eq_runAll_either_order :
    let r := Roller.replay [4, 1, 6]
    let bare : Pool := ⟨"2d6", .dice { count := 2, faces := Faces.d6 }⟩
    let high : Modifier := { magnitude := 1 }
    let again : Modifier := { magnitude := 3 }
    let p : Pool := ⟨"2d6", .dice
      { count := 2, faces := Faces.d6, modifiers := { keepHigh := high, reroll := again } }⟩
    (p.roll r 0).1 = [.int 4, .int 1] ∧
      Operation.runAll r [.keepHigh 1, .reroll 3 [], .countSuccesses []]
          (p.withHand [.fresh 4, .fresh 1]) 2 = .ok (p.roll r 0).2 ∧
      ∀ p₁ p₂ t₁ t₂,
        Operation.runAll r [.setModifier .keepHigh high, .setModifier .reroll again] bare 0 =
          .ok (p₁, t₁) →
        Operation.runAll r [.setModifier .reroll again, .roll, .setModifier .keepHigh high] bare 0 =
          .ok (p₂, t₂) →
        p₁.roll r 0 = p₂.roll r 0 := by
  intro r bare high again p
  obtain ⟨hdrawn, hrun, -, -⟩ := roll_eq_runAll (p := p) rfl r 0
  obtain ⟨-, -, -, hhistory⟩ := roll_eq_runAll (p := bare) rfl r 0
  refine ⟨hdrawn, hrun, fun p₁ p₂ t₁ t₂ h₁ h₂ => ?_⟩
  exact hhistory r r _ _ 0 t₁ 0 t₂ p₁ p₂ h₁ h₂ (fun phase => by cases phase <;> rfl) rfl

end Pool

end DiceTray

import DiceTray.Proofs.Hand.Marks
import DiceTray.Proofs.Pool.Operation

namespace DiceTray

/-- What happened to dice since they were drawn last. -/
structure Since where
  inserted : Nat := 0
  judged : Bool := false
  deriving DecidableEq, Repr

namespace Hand

structure Sound (count : Nat) (x : Since) (hand : Hand) : Prop where
  dice : ∀ d ∈ hand, d.Sound x.judged
  length_eq : hand.length = count + x.inserted

variable {σ : Type} {count : Nat} {x : Since} {hand : Hand}

theorem sound_draw (r : Roller σ) (faces : Faces) (count : Nat) (s : σ) :
    Sound count {} (Hand.draw r faces count s).1 := by
  constructor
  · intro d hd
    obtain ⟨v, -, rfl⟩ := List.mem_map.mp hd
    exact Die.sound_fresh false v
  · exact length_draw r faces count s

theorem Sound.keepHigh (h : Sound count x hand) (n : Nat) : Sound count x (hand.keepHigh n) :=
  ⟨forall_mem_dropWhere (fun _ hd => hd.drop) h.dice _, (length_dropWhere ..).trans h.length_eq⟩

theorem Sound.keepLow (h : Sound count x hand) (n : Nat) : Sound count x (hand.keepLow n) :=
  ⟨forall_mem_dropWhere (fun _ hd => hd.drop) h.dice _, (length_dropWhere ..).trans h.length_eq⟩

section

variable (h : Sound count x hand) (r : Roller σ) (faces : Faces) (times : Nat)
  (trigger : List Condition) (s : σ)

include h

theorem Sound.reroll : Sound count x (hand.reroll r faces times trigger s).1 := by
  refine ⟨forall_mem_reroll r faces (fun d v hd => ?_) h.dice times trigger s, ?_⟩
  · exact (hd.withValue v).mark (by decide)
  · exact (length_reroll r faces hand times trigger s).trans h.length_eq

theorem Sound.explode :
    Sound count { x with inserted := x.inserted + hand.inserted r faces times trigger s }
      (hand.explode r faces times trigger s).1 := by
  refine ⟨forall_mem_explode r faces times trigger (fun d hd => ?_) (fun v => ?_) h.dice s, ?_⟩
  · exact hd.mark (by decide)
  · exact (Die.sound_fresh _ v).mark (by decide)
  · rw [length_explode, h.length_eq, Nat.add_assoc]

theorem Sound.explodeInto : Sound count x (hand.explodeInto r faces times trigger s).1 := by
  refine ⟨forall_mem_explodeInto r faces times trigger (fun d v hd => ?_) h.dice s, ?_⟩
  · exact (hd.withValue v).mark (by decide)
  · exact (length_explodeInto r faces times trigger hand s).trans h.length_eq

end

theorem Sound.countSuccesses (h : Sound count x hand) (conditions : List Condition) :
    Sound count { x with judged := x.judged || !conditions.isEmpty }
      (hand.countSuccesses conditions) := by
  refine ⟨?_, (length_countSuccesses conditions hand).trans h.length_eq⟩
  cases conditions with
  | nil =>
      rw [List.isEmpty_nil, Bool.not_true, Bool.or_false]
      exact h.dice
  | cons c cs =>
      rw [List.isEmpty_cons, Bool.not_false, Bool.or_true]
      exact List.forall_mem_map.mpr fun d hd => (h.dice d hd).judge (c :: cs)

end Hand

namespace Dice

variable {σ : Type} {count : Nat} {x : Since} {hand : Hand}

def inserts (r : Roller σ) (faces : Faces) (phase : Phase) (m : Modifier) (h : Hand) (s : σ) :
    Nat :=
  match phase with
  | .explode => h.inserted r faces m.magnitude (trigger m.conditions (default faces phase)) s
  | _ => 0

def insertsAll (r : Roller σ) (faces : Faces) (ms : Modifiers) : List Phase → Hand → σ → Nat
  | [], _, _ => 0
  | p :: ps, h, s =>
      match ms.get? p with
      | none => insertsAll r faces ms ps h s
      | some m =>
          let next := apply r faces p m h s
          inserts r faces p m h s + insertsAll r faces ms ps next.1 next.2

def renewed (r : Roller σ) (d : Dice) (s : σ) : Since :=
  let (drawn, s) := Hand.draw r d.faces d.count s
  { inserted := insertsAll r d.faces d.modifiers Phase.all drawn s
    judged := !d.conditions.isEmpty }

theorem sound_apply (h : hand.Sound count x) (r : Roller σ) (faces : Faces) (phase : Phase)
    (m : Modifier) (s : σ) :
    (apply r faces phase m hand s).1.Sound count
      { x with inserted := x.inserted + inserts r faces phase m hand s } := by
  cases phase with
  | keepHigh => exact h.keepHigh m.magnitude
  | keepLow => exact h.keepLow m.magnitude
  | reroll => exact h.reroll r faces m.magnitude _ s
  | explode => exact h.explode r faces m.magnitude _ s
  | explodeInto => exact h.explodeInto r faces m.magnitude _ s

theorem sound_applyAll (h : hand.Sound count x) (r : Roller σ) (faces : Faces) (ms : Modifiers)
    (phases : List Phase) (s : σ) :
    (applyAll r faces ms phases hand s).1.Sound count
      { x with inserted := x.inserted + insertsAll r faces ms phases hand s } := by
  induction phases generalizing hand x s with
  | nil => exact h
  | cons phase phases ih =>
      cases hm : ms.get? phase with
      | none =>
          simp only [applyAll, insertsAll, hm]
          exact ih h s
      | some m =>
          have ih := ih (sound_apply h r faces phase m s) (apply r faces phase m hand s).2
          simp only [applyAll, insertsAll, hm, ← Nat.add_assoc]
          exact ih

theorem sound_roll (r : Roller σ) (d : Dice) (s : σ) :
    (d.roll r s).2.1.hand.Sound d.count (d.renewed r s) := by
  have hdrawn := Hand.sound_draw r d.faces d.count s
  have happlied := sound_applyAll hdrawn r d.faces d.modifiers Phase.all
    (Hand.draw r d.faces d.count s).2
  have hjudged := happlied.countSuccesses d.conditions
  rw [Nat.zero_add, Bool.false_or] at hjudged
  exact hjudged

end Dice

namespace Marks

def room (l : List Mark) (m : Mark) : List Mark := if l.getLast? = some m then l else l ++ [m]

theorem exists_room_eq (l : List Mark) (m : Mark) :
    ∃ front, room l m = front ++ [m] ∧ l.Sublist (room l m) := by
  unfold room
  split
  case isTrue h =>
      obtain ⟨front, hfront⟩ := List.getLast?_eq_some_iff.mp h
      exact ⟨front, hfront, List.Sublist.refl l⟩
  case isFalse => exact ⟨l, rfl, List.sublist_append_left l [m]⟩

end Marks

def Phase.mark : Phase → Mark
  | .keepHigh => .dropped
  | .keepLow => .dropped
  | .reroll => .rerolled
  | .explode => .exploded
  | .explodeInto => .exploded

namespace Dice

variable {σ : Type} {hand : Hand} {l : List Mark}

theorem marks_apply {phase : Phase}
    (h : ∀ d ∈ hand, d.marks.toList.Sublist (l ++ [phase.mark])) (r : Roller σ) (faces : Faces)
    (m : Modifier) (s : σ) :
    ∀ d ∈ (apply r faces phase m hand s).1, d.marks.toList.Sublist (l ++ [phase.mark]) := by
  have hadd : ∀ d : Die, d.marks.toList.Sublist (l ++ [phase.mark]) →
      (d.marks.add phase.mark).toList.Sublist (l ++ [phase.mark]) := fun _ => Marks.sublist_add
  cases phase with
  | keepHigh | keepLow => exact Hand.forall_mem_dropWhere hadd h _
  | reroll => exact Hand.forall_mem_reroll r faces (fun d _ => hadd d) h m.magnitude _ s
  | explode =>
      have hnew : ∀ v, ((Die.fresh v).mark .exploded).marks.toList.Sublist (l ++ [.exploded]) :=
        fun v => List.sublist_append_right l [.exploded]
      exact Hand.forall_mem_explode r faces m.magnitude _ hadd hnew h s
  | explodeInto => exact Hand.forall_mem_explodeInto r faces m.magnitude _ (fun d _ => hadd d) h s

theorem marks_applyAll (h : ∀ d ∈ hand, d.marks.toList.Sublist l) (r : Roller σ) (faces : Faces)
    (ms : Modifiers) (phases : List Phase) (s : σ) :
    ∀ d ∈ (applyAll r faces ms phases hand s).1,
      d.marks.toList.Sublist (phases.foldl (fun l phase => Marks.room l phase.mark) l) := by
  induction phases generalizing hand l s with
  | nil => exact h
  | cons phase phases ih =>
      obtain ⟨front, hroom, hsub⟩ := Marks.exists_room_eq l phase.mark
      have hwide : ∀ d ∈ hand, d.marks.toList.Sublist (Marks.room l phase.mark) :=
        fun d hd => (h d hd).trans hsub
      cases hm : ms.get? phase with
      | none =>
          simp only [applyAll, hm]
          exact ih hwide s
      | some m =>
          have happlied : ∀ d ∈ (apply r faces phase m hand s).1,
              d.marks.toList.Sublist (Marks.room l phase.mark) := by
            rw [hroom] at hwide ⊢
            exact marks_apply hwide r faces m s
          simp only [applyAll, hm]
          exact ih happlied _

theorem marks_judge {d : Die} (h : d.marks.toList.Sublist l) (conditions : List Condition) :
    ∃ last, (last = .success ∨ last = .failure) ∧
      (Hand.judge conditions d).marks.toList.Sublist (l ++ [last]) := by
  have hwide (last : Mark) : d.marks.toList.Sublist (l ++ [last]) :=
    h.trans (List.sublist_append_left l [last])
  unfold Hand.judge
  split
  · exact ⟨.failure, .inr rfl, Marks.sublist_add (hwide _)⟩
  · split
    · exact ⟨.success, .inl rfl, Marks.sublist_add (hwide _)⟩
    · exact ⟨.success, .inl rfl, hwide _⟩

theorem marks_modified (r : Roller σ) (d : Dice) (s : σ) :
    let (drawn, s) := Hand.draw r d.faces d.count s
    ∀ die ∈ (applyAll r d.faces d.modifiers Phase.all drawn s).1,
      die.marks.toList.Sublist [.dropped, .rerolled, .exploded] := by
  have hdrawn : ∀ die ∈ (Hand.draw r d.faces d.count s).1, die.marks.toList.Sublist [] :=
    List.forall_mem_map.mpr fun v _ => List.Sublist.refl []
  exact marks_applyAll hdrawn r d.faces d.modifiers Phase.all (Hand.draw r d.faces d.count s).2

theorem marks_roll (r : Roller σ) (d : Dice) (s : σ) :
    ∀ die ∈ (d.roll r s).2.1.hand, ∃ last, (last = .success ∨ last = .failure) ∧
      die.marks.toList.Sublist [.dropped, .rerolled, .exploded, last] := by
  have happlied := marks_modified r d s
  change ∀ die ∈ Hand.countSuccesses d.conditions _, _
  unfold Hand.countSuccesses
  split
  · intro die hdie
    exact ⟨.success, .inl rfl, (happlied die hdie).trans (by decide)⟩
  · exact List.forall_mem_map.mpr fun die hdie => marks_judge (happlied die hdie) d.conditions

end Dice

def Operation.since {σ : Type} (r : Roller σ) (d : Dice) (s : σ) (x : Since) : Operation → Since
  | .explode times conditions =>
      { x with
        inserted := x.inserted + Dice.inserts r d.faces .explode ⟨times, conditions⟩ d.hand s }
  | .countSuccesses conditions => { x with judged := x.judged || !conditions.isEmpty }
  | .roll => d.renewed r s
  | _ => x

inductive History : Pool → Since → Prop where
  | dice {σ : Type} (r : Roller σ) (source : String) (count : Nat) (faces : Faces) (s : σ) :
      History (Pool.ofNotation r source (.dice count faces) s).1 {}
  | stunt {σ : Type} (r : Roller σ) (source : String) (s : σ) :
      History (Pool.stunt r source s).1 {}
  | operated {σ : Type} {p q : Pool} {x : Since} {d : Dice} (h : History p x)
      (hd : p.dice? = some d) (r : Roller σ) (op : Operation) {s s' : σ}
      (hq : op.run r p s = .ok (q, s')) : History q (op.since r d s x)

namespace Operation

variable {σ : Type} {r : Roller σ} {p q : Pool} {s s' : σ} {d : Dice} {x : Since}

theorem sound_of_run {op : Operation} (h : p.dice? = some d) (hx : d.hand.Sound d.count x)
    (hq : op.run r p s = .ok (q, s')) :
    ∃ e, q.dice? = some e ∧ e.hand.Sound e.count (op.since r d s x) := by
  have hchange {f : Dice → Dice} (hf : ((p.change f).map fun q => (q, s)) = .ok (q, s')) :
      q.dice? = some (f d) := by
    rw [Pool.change_of_dice h] at hf
    cases hf
    exact Pool.dice?_withDice h _
  have hfrom {f : Dice → σ → Dice × σ} (hf : p.changeFrom f s = .ok (q, s')) :
      q.dice? = some (f d s).1 := by
    rw [Pool.changeFrom_of_dice h] at hf
    cases hf
    exact Pool.dice?_withDice h _
  cases op with
  | keepHigh n => exact ⟨_, hchange hq, hx.keepHigh n⟩
  | keepLow n => exact ⟨_, hchange hq, hx.keepLow n⟩
  | reroll times conditions =>
      exact ⟨_, hfrom (f := Dice.reroll r times conditions) hq, hx.reroll r d.faces times _ s⟩
  | explode times conditions =>
      exact ⟨_, hfrom (f := Dice.explode r times conditions) hq, hx.explode r d.faces times _ s⟩
  | explodeInto times conditions =>
      exact ⟨_, hfrom (f := Dice.explodeInto r times conditions) hq,
        hx.explodeInto r d.faces times _ s⟩
  | countSuccesses conditions => exact ⟨_, hchange hq, hx.countSuccesses conditions⟩
  | setModifier phase m => exact ⟨_, hchange hq, hx⟩
  | setConditions conditions => exact ⟨_, hchange hq, hx⟩
  | roll =>
      rw [run, Pool.roll_of_dice h] at hq
      cases hq
      exact ⟨_, Pool.dice?_withDice h _, Dice.sound_roll r d s⟩

theorem exists_run_of_dice (h : p.dice? = some d) (op : Operation) (s : σ) :
    ∃ q s', op.run r p s = .ok (q, s') := by
  have hfrom (f : Dice → σ → Dice × σ) := Pool.changeFrom_of_dice h f s
  cases op with
  | roll => exact ⟨_, _, rfl⟩
  | reroll times conditions => exact ⟨_, _, hfrom (Dice.reroll r times conditions)⟩
  | explode times conditions => exact ⟨_, _, hfrom (Dice.explode r times conditions)⟩
  | explodeInto times conditions => exact ⟨_, _, hfrom (Dice.explodeInto r times conditions)⟩
  | _ => exact ⟨_, _, congrArg (Except.map _) (Pool.change_of_dice h _)⟩

end Operation

namespace Pool

variable {p : Pool} {x : Since}

theorem sound_of_history (h : History p x) :
    ∃ d, p.dice? = some d ∧ d.hand.Sound d.count x := by
  induction h with
  | dice r source count faces s => exact ⟨_, rfl, Hand.sound_draw r faces count s⟩
  | stunt r source s => exact ⟨_, rfl, Hand.sound_draw r Faces.d6 stuntDice s⟩
  | operated _ hd r op hq ih =>
      obtain ⟨e, he, hx⟩ := ih
      cases hd.symm.trans he
      exact Operation.sound_of_run hd hx hq

theorem denotation_of_dice {d : Dice} (h : p.dice? = some d) :
    denotation p = .dice d.count d.faces := by
  rcases p with ⟨source, value | e | e⟩ <;> cases h <;> rfl

theorem hand_rolled_of_dice {σ : Type} {d : Dice} (h : p.dice? = some d) (r : Roller σ) (s : σ) :
    (p.rolled r s).hand = (d.roll r s).2.1.hand := by
  rw [rolled, roll_of_dice h]
  exact hand_of_dice (dice?_withDice h _)

theorem hand_of_history (h : History p x) :
    ∃ count faces, denotation p = .dice count faces ∧
      (∀ d ∈ p.hand, d.marks.toList.Nodup) ∧
      (∀ d ∈ p.hand, d.marks.has .dropped = true → d.counts = false) ∧
      count ≤ p.hand.length ∧ p.hand.length = count + x.inserted ∧
      (x.judged = false → ∀ d ∈ p.hand, d.counts = true ↔ d.marks.has .dropped = false) ∧
      ∀ {σ : Type} (r : Roller σ) (s : σ),
        (∀ d ∈ (p.rolled r s).hand, ∃ last, (last = .success ∨ last = .failure) ∧
          d.marks.toList.Sublist [.dropped, .rerolled, .exploded, last]) ∧
        ∀ op : Operation, ∃ q s', op.run r p s = .ok (q, s') := by
  obtain ⟨d, hd, hx⟩ := sound_of_history h
  rw [hand_of_dice hd]
  have hdropped : ∀ die ∈ d.hand, die.marks.has .dropped = true → die.counts = false :=
    fun die hdie hm => (hx.dice die hdie).not_counts (by simpa [Marks.has] using hm)
  refine ⟨d.count, d.faces, denotation_of_dice hd, fun die hdie => (hx.dice die hdie).nodup,
    hdropped, hx.length_eq ▸ Nat.le_add_right .., hx.length_eq, fun hj die hdie => ?_,
    fun r s => ⟨?_, fun op => Operation.exists_run_of_dice hd op s⟩⟩
  · constructor
    · intro hcounts
      rw [← Bool.not_eq_true]
      intro hm
      rw [hdropped die hdie hm] at hcounts
      cases hcounts
    · intro hm
      exact (hx.dice die hdie).counts hj (Marks.has_eq_false.mp hm)
  · rw [hand_rolled_of_dice hd]
    exact Dice.marks_roll r d s

theorem hand_of_history_exploded :
    let r := Roller.replay [6, 2, 6, 3]
    let p := (ofNotation r "2d6" (.dice 2 Faces.d6) 0).1
    ∃ q, Operation.run r p 2 (.explode 3 []) = .ok (q, 4) ∧ History q { inserted := 2 } ∧
      q.hand.map Die.value = [6, 6, 3, 2] ∧ q.hand.length = 2 + 2 ∧
      (∀ d ∈ q.hand, d.counts = true ↔ d.marks.has .dropped = false) ∧
      ∀ d ∈ (q.rolled r 0).hand, ∃ last, (last = .success ∨ last = .failure) ∧
        d.marks.toList.Sublist [.dropped, .rerolled, .exploded, last] := by
  intro r p
  let hand : Hand := [.fresh 6, .fresh 2]
  let new (v : Int64) : Die := ⟨v, true, ⟨[.exploded]⟩⟩
  let trigger := trigger [] (.equalTo Faces.d6.high)
  have hdice : p.dice? = some { count := 2, faces := Faces.d6, hand := hand } := by rfl
  have hexploded : hand.explode r Faces.d6 3 trigger 2 = ([new 6, new 6, new 3, .fresh 2], 4) := by
    decide +kernel
  have hinserted : hand.inserted r Faces.d6 3 trigger 2 = 2 := by decide +kernel
  have hrun := changeFrom_of_dice hdice (Dice.explode r 3 []) 2
  simp only [Dice.explode, trigger, hexploded] at hrun
  have hq := History.operated (.dice r "2d6" 2 Faces.d6 0) hdice r (.explode 3 []) hrun
  simp only [Operation.since, Dice.inserts, Dice.default, trigger, hinserted] at hq
  obtain ⟨count, faces, hcount, -, -, -, hlen, hcounts, hrolled⟩ := hand_of_history hq
  cases hcount
  exact ⟨_, hrun, hq, by rfl, hlen, hcounts rfl, (hrolled r 0).1⟩

end Pool

end DiceTray

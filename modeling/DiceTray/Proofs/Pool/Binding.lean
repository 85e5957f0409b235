import DiceTray.Proofs.Pool.Attached
import Mathlib.Data.List.TakeWhile

namespace DiceTray

namespace Token

def reading (t : Token) : Except Fault Notation :=
  match t.kind with
  | .stunt => .ok (.dice 3 ⟨1, 6⟩)
  | _ => Notation.read t.data

def kept (t : Token) : Nat := t.magnitude?.getD 1

def repeats (t : Token) : Nat := (t.magnitude?.filter fun m => 0 < m).getD 1

def binding? (count : Nat) (t : Token) : Option (Phase × Modifier) :=
  match t.kind with
  | .modifier .keepHigh => some (.keepHigh, ⟨t.kept, []⟩)
  | .modifier .keepLow => some (.keepLow, ⟨t.kept, []⟩)
  | .modifier .dropHigh => some (.keepLow, ⟨count - t.kept, []⟩)
  | .modifier .dropLow => some (.keepHigh, ⟨count - t.kept, []⟩)
  | .modifier .explode => some (.explode, ⟨t.repeats, t.conditions⟩)
  | .modifier .explodeInto => some (.explodeInto, ⟨t.repeats, t.conditions⟩)
  | .modifier .reroll => some (.reroll, ⟨t.repeats, t.conditions⟩)
  | _ => none

def modifier? (count : Nat) (phase : Phase) (t : Token) : Option Modifier :=
  (t.binding? count).bind fun b => if b.1 = phase then some b.2 else none

theorem times_eq_repeats (t : Token) : ModifierWord.times t = t.repeats := by
  unfold ModifierWord.times ModifierWord.amount repeats
  match t.magnitude? with
  | none => rfl
  | some 0 => rfl
  | some (m + 1) => simp [Option.filter]

theorem binding?_of_modifier {t : Token} {word : ModifierWord} (h : t.kind = .modifier word)
    (count : Nat) : t.binding? count = some (word.modifier t count) := by
  have ht := times_eq_repeats t
  cases word <;> simp [binding?, h, ModifierWord.modifier, ht, kept, ModifierWord.amount]

theorem binding?_of_not_isModifier {t : Token} (h : t.kind.isModifier = false) (count : Nat) :
    t.binding? count = none := by
  unfold binding?
  cases hk : t.kind with
  | modifier word =>
      rw [hk] at h
      cases h
  | _ => rfl

end Token

structure Group where
  head : Token
  rest : List Token
  isPool : head.kind.isPool = true
  apart : ∀ t ∈ rest, t.kind.isPool = false

namespace Group

def tokens (g : Group) : List Token := g.head :: g.rest

def modifier? (g : Group) (count : Nat) (phase : Phase) : Option Modifier :=
  (g.rest.filterMap (Token.modifier? count phase)).getLast?

def lead (ts : List Token) : List Token := ts.takeWhile fun t => !t.kind.isPool

theorem isPool_of_mem_lead {ts : List Token} {t : Token} (h : t ∈ lead ts) :
    t.kind.isPool = false := by
  simpa using List.mem_takeWhile_imp h

def all : List Token → List Group
  | [] => []
  | t :: ts =>
      if h : t.kind.isPool then ⟨t, lead ts, h, fun _ => isPool_of_mem_lead⟩ :: all ts
      else all ts

theorem lead_append_all (ts : List Token) : lead ts ++ (all ts).flatMap tokens = ts := by
  induction ts with
  | nil => rfl
  | cons t ts ih =>
      cases h : t.kind.isPool with
      | true => simp [lead, all, h, tokens] at ih ⊢; exact ih
      | false => simp [lead, all, h] at ih ⊢; exact ih

end Group

namespace Pool

variable {σ : Type} {p : Pool} {count : Nat} {faces : Faces}

def attached (t : Token) (p : Pool) : Pool :=
  match t.kind with
  | .modifier word => p.modified word t
  | _ => p

def dressed (ts : List Token) (p : Pool) : Pool := ts.foldl (fun p t => p.attached t) p

theorem attached_of_modifier {t : Token} {word : ModifierWord} (h : t.kind = .modifier word)
    (p : Pool) : p.attached t = p.modified word t := by
  simp [attached, h]

theorem attached_of_not_isModifier {t : Token} (h : t.kind.isModifier = false) (p : Pool) :
    p.attached t = p := by
  unfold attached
  cases hk : t.kind with
  | modifier word =>
      rw [hk] at h
      cases h
  | _ => rfl

theorem denotation_attached (t : Token) (p : Pool) : denotation (p.attached t) = denotation p := by
  unfold attached
  split
  · exact denotation_modified ..
  · rfl

theorem conditions_attached (t : Token) (p : Pool) : (p.attached t).conditions = p.conditions := by
  unfold attached
  split
  · exact conditions_modified ..
  · rfl

theorem cleared_attached (t : Token) (p : Pool) :
    (p.attached t).cleared = p.cleared.attached t := by
  unfold attached
  split
  · exact cleared_modified ..
  · rfl

theorem get?_attached (h : denotation p = .dice count faces) (t : Token) (phase : Phase) :
    (p.attached t).modifiers.get? phase =
      (t.modifier? count phase).or (p.modifiers.get? phase) := by
  cases hm : t.kind.isModifier with
  | false =>
      rw [attached_of_not_isModifier hm, Token.modifier?, Token.binding?_of_not_isModifier hm]
      rfl
  | true =>
      obtain ⟨word, ht⟩ := Token.exists_word_of_isModifier hm
      rw [attached_of_modifier ht, modifiers_modified h, Modifiers.get?_set, Token.modifier?,
        Token.binding?_of_modifier ht, Option.bind_some]
      by_cases hp : phase = (word.modifier t count).1
      · simp [hp]
      · simp [hp, Ne.symm hp]

theorem denotation_dressed (ts : List Token) (p : Pool) :
    denotation (p.dressed ts) = denotation p := by
  induction ts generalizing p with
  | nil => rfl
  | cons t ts ih => exact (ih (p.attached t)).trans (denotation_attached t p)

theorem conditions_dressed (ts : List Token) (p : Pool) :
    (p.dressed ts).conditions = p.conditions := by
  induction ts generalizing p with
  | nil => rfl
  | cons t ts ih => exact (ih (p.attached t)).trans (conditions_attached t p)

theorem cleared_dressed (ts : List Token) (p : Pool) :
    (p.dressed ts).cleared = p.cleared.dressed ts := by
  induction ts generalizing p with
  | nil => rfl
  | cons t ts ih =>
      have h := ih (p.attached t)
      rw [cleared_attached] at h
      exact h

theorem get?_dressed (h : denotation p = .dice count faces) (ts : List Token) (phase : Phase) :
    (p.dressed ts).modifiers.get? phase =
      (ts.filterMap (Token.modifier? count phase)).getLast?.or (p.modifiers.get? phase) := by
  induction ts generalizing p with
  | nil => rfl
  | cons t ts ih =>
      have ih := ih (p := p.attached t) ((denotation_attached t p).trans h)
      rw [get?_attached h] at ih
      rw [getLast?_filterMap_cons, Option.or_assoc]
      exact ih

inductive Bound (g : Group) (p : Pool) : Prop where
  | fixed (value : Number) (hr : g.head.reading = .ok (.fixed value))
      (hp : denotation p = .fixed value) (hm : p.modifiers = {}) (hc : p.conditions = [])
  | dice (count : Nat) (faces : Faces) (hr : g.head.reading = .ok (.dice count faces))
      (hp : denotation p = .dice count faces)
      (hm : ∀ phase, p.modifiers.get? phase = g.modifier? count phase)
      (hc : p.conditions = g.head.conditions)

inductive Fits (g : Group) (p : Pool) : Prop where
  | fixed (value : Number) (hr : g.head.reading = .ok (.fixed value))
      (hp : denotation p = .fixed value)
  | dice (count : Nat) (faces : Faces) (hr : g.head.reading = .ok (.dice count faces))
      (hp : denotation p = .dice count faces)
      (hm : ∀ phase, g.modifier? count phase = none → p.modifiers.get? phase = none)
      (hc : g.head.conditions = [] → p.conditions = [])

section

variable {g : Group} {q : Pool}

theorem Bound.fits (h : Bound g p) : Fits g p := by
  cases h with
  | fixed value hr hp _ _ => exact .fixed value hr hp
  | dice count faces hr hp hm hc =>
      exact .dice count faces hr hp (fun phase hn => (hm phase).trans hn) fun hn => hc.trans hn

theorem Bound.eq_of (h : Bound g p) (h' : Bound g q) :
    p.modifiers = q.modifiers ∧ p.conditions = q.conditions := by
  cases h with
  | fixed value hr hp hm hc =>
      cases h' with
      | fixed _ _ _ hm' hc' => exact ⟨hm.trans hm'.symm, hc.trans hc'.symm⟩
      | dice _ _ hr' _ _ _ => cases hr.symm.trans hr'
  | dice count faces hr hp hm hc =>
      cases h' with
      | fixed _ hr' _ _ _ => cases hr.symm.trans hr'
      | dice _ _ hr' _ hm' hc' =>
          cases hr.symm.trans hr'
          have hget (phase : Phase) := (hm phase).trans (hm' phase).symm
          exact ⟨Modifiers.ext_get? hget, hc.trans hc'.symm⟩

theorem bound_congr (hd : denotation p = denotation q) (hm : p.modifiers = q.modifiers)
    (hc : p.conditions = q.conditions) (h : Bound g p) : Bound g q := by
  cases h with
  | fixed value hr hp hpm hpc =>
      exact .fixed value hr (hd.symm.trans hp) (hm.symm.trans hpm) (hc.symm.trans hpc)
  | dice count faces hr hp hpm hpc =>
      exact .dice count faces hr (hd.symm.trans hp) (hm ▸ hpm) (hc.symm.trans hpc)

theorem bound_cleared : Bound g p.cleared ↔ Bound g p :=
  ⟨bound_congr (denotation_cleared p) (modifiers_cleared p) (conditions_cleared p),
    bound_congr (denotation_cleared p).symm (modifiers_cleared p).symm (conditions_cleared p).symm⟩

theorem Fits.bound (h : Fits g p) : Bound g ((p.judged g.head).dressed g.rest) := by
  have hd := (denotation_dressed g.rest (p.judged g.head)).trans (denotation_judged g.head p)
  cases h with
  | fixed value hr hp =>
      obtain ⟨hm, hc⟩ := modifiers_of_fixed (hd.trans hp)
      exact .fixed value hr (hd.trans hp) hm hc
  | dice count faces hr hp hm hc =>
      refine .dice count faces hr (hd.trans hp) (fun phase => ?_) ?_
      · rw [get?_dressed ((denotation_judged g.head p).trans hp), modifiers_judged]
        change (g.modifier? count phase).or _ = _
        cases hg : g.modifier? count phase with
        | some m => rfl
        | none => exact hm phase hg
      · rw [conditions_dressed, conditions_judged hp]
        split
        case isTrue he =>
          have he := List.isEmpty_iff.mp he
          exact (hc he).trans he.symm
        case isFalse => rfl

theorem fits_of_create {r : Roller σ} {s s' : σ}
    (h : Pass.create r g.head s = .ok (p, s')) : Fits g p := by
  have bare (phase : Phase) : Modifiers.get? {} phase = none := by cases phase <;> rfl
  unfold Pass.create at h
  cases hk : g.head.kind with
  | stunt =>
      have hr : g.head.reading = .ok (.dice 3 ⟨1, 6⟩) := by rw [Token.reading, hk]
      rw [hk] at h
      cases h
      exact .dice _ _ hr rfl (fun phase _ => bare phase) fun _ => rfl
  | dice =>
      have hr : g.head.reading = Notation.read g.head.data := by rw [Token.reading, hk]
      rw [hk] at h
      simp only [read] at h
      cases hn : Notation.read g.head.data with
      | error f =>
          rw [hn] at h
          cases h
      | ok n =>
          rw [hn] at h
          cases n with
          | fixed value =>
              cases h
              exact .fixed _ (hr.trans hn) rfl
          | dice count faces =>
              cases h
              exact .dice _ _ (hr.trans hn) rfl (fun phase _ => bare phase) fun _ => rfl
  | _ =>
      have hp := g.isPool
      rw [hk] at hp
      cases hp

end

end Pool

end DiceTray

import DiceTray.Proofs.Tray.Follows

namespace DiceTray

variable {σ : Type} {r : Roller σ} {t : Token} {p q : Pass σ}

/-- The tokens write a tree down in postfix order. The leaves are numbered in their order, from
`first` to `next`, and modifiers may come behind the token of a leaf. -/
inductive Postfix : Tree → List Token → (first next : Nat) → Prop where
  | leaf {i : Nat} {t : Token} {modifiers : List Token} (ht : t.kind.isPool = true)
      (hm : ∀ u ∈ modifiers, u.kind.isModifier = true) :
      Postfix (.leaf i) (t :: modifiers) i (i + 1)
  | node {i j k : Nat} {left right : Tree} {ts us : List Token} {t : Token} {op : Operator}
      (hl : Postfix left ts i j) (hr : Postfix right us j k) (ht : t.operator? = some (.ok op)) :
      Postfix (.node op left right) (ts ++ us ++ [t]) i k

theorem Sketch.run_of_modifiers {ms : List Token} (h : ∀ u ∈ ms, u.kind.isModifier = true)
    (k : Sketch) : k.run ms = k := by
  induction ms with
  | nil => rfl
  | cons u ms ih =>
      obtain ⟨word, hw⟩ := Token.exists_word_of_isModifier (h u (by simp))
      rw [Sketch.run, List.foldl_cons, step_of_modifier hw]
      exact ih fun v hv => h v (by simp [hv])

theorem Sketch.run_of_postfix {e : Tree} {ts : List Token} {i j : Nat} (h : Postfix e ts i j)
    (es : List Tree) : Sketch.run ⟨i, es⟩ ts = ⟨j, e :: es⟩ := by
  induction h generalizing es with
  | leaf ht hm =>
      rw [Sketch.run, List.foldl_cons, step_of_isPool ht]
      exact run_of_modifiers hm _
  | node hl hr ht ihl ihr =>
      rw [run_append, run_append, ihl, ihr]
      exact step_of_operator ht rfl

def Fault.isOfOperands : Fault → Bool
  | .malformed (.noOperands _) => true
  | .malformed (.singleOperand _) => true
  | .malformed (.valuesLeft _) => true
  | _ => false

theorem Pool.eq_modifiersNotAllowed_of_change {pool : Pool} {g : Dice → Dice} {f : Fault}
    (h : pool.change g = .error f) : f = .modifiersNotAllowed := by
  unfold Pool.change at h
  split at h <;> cases h
  rfl

namespace Pass

def Quiet (p : Pass σ) : Prop := ∀ f ∈ p.notices, f.isOfOperands = false

theorem quiet_notice {f : Fault} (h : p.Quiet) (hf : f.isOfOperands = false) :
    (p.notice f).Quiet := by
  intro g hg
  rcases List.mem_append.mp hg with hg | hg
  · exact h g hg
  · rw [List.mem_singleton.mp hg, hf]

theorem quiet_keep_change (h : p.Quiet) (i : Nat) (pool : Pool) (g : Dice → Dice) :
    (p.keep i (pool.change g)).Quiet := by
  cases hc : pool.change g with
  | ok new => exact h
  | error f =>
      rw [Pool.eq_modifiersNotAllowed_of_change hc]
      exact quiet_notice h rfl

theorem quiet_attach (h : p.Quiet) (word : ModifierWord) (t : Token) :
    (p.attach word t).Quiet := by
  unfold attach
  split
  · exact quiet_notice h rfl
  · exact quiet_keep_change h _ _ _

theorem quiet_meet (h : p.Quiet) (hq : p.meet r t = .ok q) : q.Quiet := by
  obtain ⟨p', hp', rfl⟩ := exists_of_meet hq
  have hp : p'.Quiet := by
    cases hp' with
    | kept _ e => subst e; exact h
    | created _ _ _ _ e => subst e; exact h
  have hc : (p'.condition t).Quiet := by
    unfold condition
    split
    · exact quiet_keep_change hp _ _ _
    · exact hp
  exact hc

theorem quiet_run_of_modifiers {ms : List Token} (hm : ∀ u ∈ ms, u.kind.isModifier = true)
    (h : p.Quiet) (hq : p.run r ms = (none, q)) : q.Quiet ∧ q.operands = p.operands := by
  induction ms generalizing p with
  | nil =>
      cases hq
      exact ⟨h, rfl⟩
  | cons u ms ih =>
      obtain ⟨word, hw⟩ := Token.exists_word_of_isModifier (hm u (by simp))
      rw [run_cons_ok (step_of_modifier hw)] at hq
      obtain ⟨hquiet, hops⟩ := ih (fun v hv => hm v (by simp [hv])) (quiet_attach h word u) hq
      exact ⟨hquiet, hops.trans (attach_frame word u p).2.1⟩

theorem exists_of_run_append {ts us : List Token} (h : p.run r (ts ++ us) = (none, q)) :
    ∃ p', p.run r ts = (none, p') ∧ p'.run r us = (none, q) := by
  rw [run_append] at h
  split at h
  case h_1 p' hp' => exact ⟨p', hp', h⟩
  case h_2 => cases h

theorem quiet_run_of_postfix {e : Tree} {ts : List Token} {i j : Nat} (he : Postfix e ts i j)
    (h : p.Quiet) (hq : p.run r ts = (none, q)) :
    q.Quiet ∧ ∃ x, q.operands = x :: p.operands := by
  induction he generalizing p q with
  | @leaf i t modifiers ht hm =>
      cases hs : p.meet r t with
      | error f => simp [run, step_of_isPool ht, hs] at hq
      | ok p' =>
          rw [run_cons_ok ((step_of_isPool ht).trans hs)] at hq
          obtain ⟨hquiet, hops⟩ := quiet_run_of_modifiers hm (quiet_meet h hs) hq
          obtain ⟨p₀, hp₀, rfl⟩ := exists_of_meet hs
          have hp : p₀.operands = p.operands := by cases hp₀ <;> (subst p₀; rfl)
          refine ⟨hquiet, .pool p₀.met, hops.trans ?_⟩
          simp only [push, (condition_frame t p₀).2.1, hp]
  | @node i j k left right ts us t op hl hr ht ihl ihr =>
      obtain ⟨p₂, hp₂, hlast⟩ := exists_of_run_append hq
      obtain ⟨p₁, hp₁, hright⟩ := exists_of_run_append hp₂
      obtain ⟨hq₁, y, hy⟩ := ihl h hp₁
      obtain ⟨hq₂, x, hx⟩ := ihr hq₁ hright
      rw [hy] at hx
      rw [run_cons_ok (step_of_operator ht)] at hlast
      cases hlast
      obtain ⟨-, hn, pool, fixed, ho⟩ := combine_frame r op t.text hx
      refine ⟨fun f hf => hq₂ f ?_, .folded pool fixed, ho⟩
      rw [hn] at hf
      exact hf

end Pass

namespace Tray

theorem value?_of_roll_ok {tokens : List Token} {t : Tray} {s : σ} {n : Number}
    (h : (t.roll r tokens s).1 = .ok n) :
    (∃ e rest, (Sketch.ofTokens tokens).operands = e :: rest ∧
      e.value? (reading (t.roll r tokens s).2.1.pools) = some n) ∧
    ∀ e next, Postfix e tokens 0 next →
      e.value? (reading (t.roll r tokens s).2.1.pools) = some n ∧
      ∀ f ∈ (t.roll r tokens s).2.1.notices, f.isOfOperands = false := by
  obtain ⟨p, x, rest, hrun, hx, hn, hpools, hnotices, -⟩ := exists_of_roll_ok h
  obtain ⟨hcp, -, -⟩ := Pass.closed_frame p
  have hf := Pass.follows_run (Pass.follows_start t s) hrun
  have hops := hf.operands
  rw [hx] at hops
  obtain ⟨e, es, hex, -, hke⟩ := List.forall₂_cons_right_iff.mp hops
  rw [← hcp] at hex
  have hvalue : e.value? (reading (t.roll r tokens s).2.1.pools) = some n := by
    rw [hpools, hn]
    exact (Pass.settle_stands hex).1
  refine ⟨⟨e, es, hke, hvalue⟩, fun e' next he' => ?_⟩
  have hsketch : (Sketch.run {} tokens).operands = [e'] := by rw [Sketch.run_of_postfix he' []]
  have hee : e = e' := (List.cons.inj (hke.symm.trans hsketch)).1
  refine ⟨hee ▸ hvalue, fun f hmem => ?_⟩
  have hstart : (t.start s).Quiet := fun f hf => by cases hf
  obtain ⟨hquiet, y, hy⟩ := Pass.quiet_run_of_postfix he' hstart hrun
  have hclosed : p.closed = p := by simp only [Pass.closed, hy, start]
  rw [hnotices, (Pass.settle_frame r x p.closed).2.2, hclosed] at hmem
  exact hquiet f hmem

theorem value?_of_roll_ok_refused_keep :
    let tokens : List Token :=
      [.dice "5", ⟨.modifier .keepHigh, "kh1", "1", []⟩, .dice "2d6", .math .add]
    let after := ({} : Tray).roll (Roller.replay [1, 2, 3, 4]) tokens 0
    let sum := Tree.node .add (.leaf 0) (.leaf 1)
    after.1 = .ok (.int 12) ∧ Postfix sum tokens 0 2 ∧
      sum.value? (reading after.2.1.pools) = some (.int 12) ∧
      ∀ f ∈ after.2.1.notices, f.isOfOperands = false := by
  intro tokens after sum
  have h : after.1 = .ok (.int 12) := by rfl
  have hleft : Postfix (.leaf 0) [.dice "5", ⟨.modifier .keepHigh, "kh1", "1", []⟩] 0 1 :=
    .leaf rfl (by simp [TokenKind.isModifier])
  have hright : Postfix (.leaf 1) [.dice "2d6"] 1 2 := .leaf rfl (by simp)
  have hsum : Postfix sum tokens 0 2 := .node hleft hright rfl
  obtain ⟨-, htree⟩ := value?_of_roll_ok h
  exact ⟨h, hsum, htree sum 2 hsum⟩

end Tray

end DiceTray

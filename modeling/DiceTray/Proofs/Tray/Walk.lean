import DiceTray.Proofs.Pool.Attached
import Mathlib.Data.List.Basic

namespace DiceTray

theorem set_eq_modify_of_getElem? {α : Type} {l : List α} {i : Nat} {a : α} (f : α → α)
    (h : l[i]? = some a) : l.set i (f a) = l.modify i f := by
  simp [List.modify_eq_set_getElem?, h]

theorem modify_concat {α : Type} (l : List α) (a : α) (f : α → α) :
    (l ++ [a]).modify l.length f = l ++ [f a] := by
  rw [List.modify_eq_set_getElem?, List.getElem?_concat_length]
  simp

theorem map_modify {α β : Type} {f : α → α} {f' : β → β} {g : α → β}
    (h : ∀ a, g (f a) = f' (g a)) (l : List α) (i : Nat) :
    (l.modify i f).map g = (l.map g).modify i f' := by
  apply List.ext_getElem?
  intro j
  simp only [List.getElem?_map, List.getElem?_modify]
  split
  · cases l[j]? <;> simp [h]
  · cases l[j]? <;> rfl

theorem map_modify_eq {α β : Type} {f : α → α} {g : α → β} (h : ∀ a, g (f a) = g a) (l : List α)
    (i : Nat) : (l.modify i f).map g = l.map g :=
  calc
    (l.modify i f).map g = (l.map g).modify i id := map_modify h l i
    _ = l.map g := List.modify_id ..

namespace Token

inductive Role (t : Token) : Prop where
  | pool (h : t.kind.isPool = true)
  | modifier (word : ModifierWord) (h : t.kind = .modifier word)
  | operator (op : Operator) (h : t.operator? = some (.ok op))
  | unknown (f : Fault) (h : t.operator? = some (.error f))

theorem role (t : Token) : t.Role := by
  rcases t with ⟨kind, text, data, conditions⟩
  cases kind with
  | dice => exact .pool rfl
  | stunt => exact .pool rfl
  | modifier word => exact .modifier word rfl
  | operator op => exact .operator op rfl
  | math =>
      cases h : Operator.read data with
      | ok op => exact .operator op (congrArg some h)
      | error f => exact .unknown f (congrArg some h)

theorem operator?_of_isPool {t : Token} (h : t.kind.isPool = true) : t.operator? = none := by
  rcases t with ⟨kind, text, data, conditions⟩
  cases kind <;> first | rfl | cases h

theorem operator?_of_modifier {t : Token} {word : ModifierWord} (h : t.kind = .modifier word) :
    t.operator? = none := by
  simp [operator?, h, TokenKind.operator?]

theorem isModifier_of_operator {t : Token} {x : Except Fault Operator}
    (h : t.operator? = some x) : t.kind.isModifier = false := by
  rcases t with ⟨kind, text, data, conditions⟩
  cases kind <;> first | rfl | cases h

theorem isPool_of_modifier {t : Token} {word : ModifierWord} (h : t.kind = .modifier word) :
    t.kind.isPool = false := by
  rw [h]
  rfl

theorem isPool_of_operator {t : Token} {x : Except Fault Operator} (h : t.operator? = some x) :
    t.kind.isPool = false := by
  cases hp : t.kind.isPool with
  | false => rfl
  | true => rw [operator?_of_isPool hp] at h; cases h

end Token

namespace Pass

variable {σ : Type} {r : Roller σ} {t : Token} {p q : Pass σ}

theorem step_of_isPool (h : t.kind.isPool = true) : p.step r t = p.meet r t := by
  rcases t with ⟨kind, text, data, conditions⟩
  cases kind <;> first | rfl | cases h

theorem step_of_modifier {word : ModifierWord} (h : t.kind = .modifier word) :
    p.step r t = .ok (p.attach word t) := by
  simp [step, h]

theorem step_of_operator {op : Operator} (h : t.operator? = some (.ok op)) :
    p.step r t = .ok (p.combine r op t.text) := by
  rcases t with ⟨kind, text, data, conditions⟩
  cases kind with
  | math => simp_all [step, Token.operator?]
  | operator op' =>
      cases h
      rfl
  | _ => cases h

theorem step_of_unknown {f : Fault} (h : t.operator? = some (.error f)) :
    p.step r t = .ok (p.notice f) := by
  rcases t with ⟨kind, text, data, conditions⟩
  cases kind with
  | math => simp_all [step, Token.operator?]
  | _ => cases h

theorem run_cons_ok {ts : List Token} (h : p.step r t = .ok q) :
    p.run r (t :: ts) = q.run r ts := by
  simp [run, h]

theorem run_append (ts us : List Token) (p : Pass σ) :
    p.run r (ts ++ us) =
      match p.run r ts with
      | (none, q) => q.run r us
      | (some f, q) => (some f, q) := by
  induction ts generalizing p with
  | nil => rfl
  | cons t ts ih =>
      simp only [List.cons_append, run]
      cases p.step r t with
      | ok q => exact ih q
      | error f => rfl

theorem pools_keep {i : Nat} {pool : Pool} (h : p.pools[i]? = some pool)
    (change : Except Fault Pool) :
    (p.keep i change).pools = p.pools.set i (change.toOption.getD pool) := by
  cases change with
  | ok new => rfl
  | error f =>
      obtain ⟨hi, rfl⟩ := List.getElem?_eq_some_iff.mp h
      exact (List.set_getElem_self hi).symm

theorem keep_frame (p : Pass σ) (i : Nat) (change : Except Fault Pool) :
    (p.keep i change).met = p.met ∧ (p.keep i change).operands = p.operands ∧
      (p.keep i change).source = p.source := by
  cases change <;> exact ⟨rfl, rfl, rfl⟩

theorem condition_frame (t : Token) (p : Pass σ) :
    (p.condition t).met = p.met ∧ (p.condition t).operands = p.operands ∧
      (p.condition t).source = p.source := by
  unfold condition
  split
  · exact keep_frame ..
  · exact ⟨rfl, rfl, rfl⟩

theorem pools_condition (t : Token) (p : Pass σ) :
    (p.condition t).pools = p.pools.modify p.met (Pool.judged t) := by
  cases ht : t.conditions with
  | nil =>
      have hid : Pool.judged t = id := funext fun pool => by simp [Pool.judged, ht]
      simp [condition, ht, hid]
  | cons c cs =>
      cases hp : p.pools[p.met]? with
      | none =>
          have hlen : p.pools.length ≤ p.met := List.getElem?_eq_none_iff.mp hp
          simp [condition, ht, hp, List.modify_eq_self hlen]
      | some pool =>
          simp only [condition, ht, hp]
          rw [pools_keep hp, ← set_eq_modify_of_getElem? _ hp]
          simp [Pool.judged, ht]

theorem attach_frame (word : ModifierWord) (t : Token) (p : Pass σ) :
    (p.attach word t).met = p.met ∧ (p.attach word t).operands = p.operands ∧
      (p.attach word t).source = p.source := by
  unfold attach
  split
  · exact ⟨rfl, rfl, rfl⟩
  · exact keep_frame ..

theorem pools_attach_of_met_eq_zero {word : ModifierWord} (h : p.met = 0) :
    (p.attach word t).pools = p.pools := by
  simp [attach, latest?, h, notice]

theorem pools_attach_of_met_eq_succ {word : ModifierWord} {i : Nat} (h : p.met = i + 1) :
    (p.attach word t).pools = p.pools.modify i (Pool.modified word t) := by
  cases hp : p.pools[i]? with
  | none =>
      have hlen : p.pools.length ≤ i := List.getElem?_eq_none_iff.mp hp
      simp [attach, latest?, h, hp, notice, List.modify_eq_self hlen]
  | some pool =>
      simp only [attach, latest?, h, hp, Option.map_some]
      rw [pools_keep hp, ← set_eq_modify_of_getElem? _ hp]
      rfl

inductive Provided (r : Roller σ) (t : Token) (p q : Pass σ) : Prop where
  | kept (h : p.met < p.pools.length) (e : q = p)
  | created (h : p.pools.length ≤ p.met) (pool : Pool) (s : σ)
      (hc : create r t p.source = .ok (pool, s))
      (e : q = { p with pools := p.pools ++ [pool], source := s })

theorem provided_of_ok (h : p.provide r t = .ok q) : Provided r t p q := by
  unfold provide at h
  split at h
  case isTrue hlt => exact .kept hlt (by cases h; rfl)
  case isFalse hge =>
      cases hc : create r t p.source with
      | error f => rw [hc] at h; cases h
      | ok made =>
          rw [hc] at h
          cases h
          exact .created (by omega) made.1 made.2 hc rfl

theorem Provided.exists_append (h : Provided r t p q) (hroom : p.met ≤ p.pools.length) :
    q.met = p.met ∧ q.operands = p.operands ∧ p.met < q.pools.length ∧
      ∃ new, q.pools = p.pools ++ new := by
  cases h with
  | kept hlt e =>
      subst e
      exact ⟨rfl, rfl, hlt, [], by simp⟩
  | created hge pool s _ e =>
      subst e
      refine ⟨rfl, rfl, ?_, [pool], rfl⟩
      simp only [List.length_append, List.length_singleton]
      omega

theorem exists_of_meet (h : p.meet r t = .ok q) :
    ∃ p', Provided r t p p' ∧
      q = { (p'.condition t).push (.pool p'.met) with met := p'.met + 1 } := by
  unfold meet at h
  cases hp : p.provide r t with
  | error f => rw [hp] at h; cases h
  | ok p' =>
      rw [hp] at h
      refine ⟨p', provided_of_ok hp, ?_⟩
      cases h
      simp only [push, (condition_frame t p').1]

theorem settle_pool {i : Nat} {pool : Pool} (h : p.pools[i]? = some pool) :
    p.settle r (.pool i) =
      ((pool.rolled r p.source).result,
        { p with
          source := (pool.roll r p.source).2.2
          pools := p.pools.set i (pool.rolled r p.source)
          stuntPoints := (pool.rolled r p.source).stuntPoints? <|> p.stuntPoints }) := by
  simp only [settle, h]
  rfl

theorem settle_folded {pool : Pool} (h : ∃ n, pool.content = .fixed n) :
    p.settle r (.folded pool h) = (pool.result, p) := by
  obtain ⟨n, hn⟩ := h
  simp only [settle, rollPool, Pool.roll_of_fixed hn, Pool.stuntPoints?_of_fixed hn]
  rfl

theorem settle_frame (r : Roller σ) (x : Operand) (p : Pass σ) :
    (p.settle r x).2.met = p.met ∧ (p.settle r x).2.operands = p.operands ∧
      (p.settle r x).2.notices = p.notices := by
  cases x with
  | folded pool h => rw [settle_folded h]; exact ⟨rfl, rfl, rfl⟩
  | pool i =>
      cases h : p.pools[i]? with
      | none => simp [settle, h]
      | some pool => rw [settle_pool h]; exact ⟨rfl, rfl, rfl⟩

theorem combine_of_operands {op : Operator} {text : String} {right left : Operand}
    {rest : List Operand} (h : p.operands = right :: left :: rest) :
    p.combine r op text =
      let b := { p with operands := rest }.settle r right
      let a := b.2.settle r left
      a.2.push (.literal (op.apply a.1 b.1) text) := by
  simp only [combine, h]

theorem combine_frame (r : Roller σ) (op : Operator) (text : String) {right left : Operand}
    {rest : List Operand} (h : p.operands = right :: left :: rest) :
    (p.combine r op text).met = p.met ∧ (p.combine r op text).notices = p.notices ∧
      ∃ pool fixed, (p.combine r op text).operands = .folded pool fixed :: rest := by
  rw [combine_of_operands h]
  obtain ⟨hbm, hbo, hbn⟩ := settle_frame r right { p with operands := rest }
  obtain ⟨ham, hao, han⟩ := settle_frame r left ({ p with operands := rest }.settle r right).2
  exact ⟨ham.trans hbm, han.trans hbn, _, _, congrArg (_ :: ·) (hao.trans hbo)⟩

theorem combine_of_length_lt (r : Roller σ) (op : Operator) (text : String)
    (h : p.operands.length < 2) : ∃ f, p.combine r op text = p.notice f := by
  unfold combine
  match hp : p.operands, h with
  | [], _ => exact ⟨_, rfl⟩
  | [_], _ => exact ⟨_, rfl⟩

theorem combine_cases (r : Roller σ) (op : Operator) (text : String) (p : Pass σ) :
    (∃ right left rest, p.operands = right :: left :: rest) ∨
      ∃ f, p.combine r op text = p.notice f := by
  match hp : p.operands with
  | right :: left :: rest => exact .inl ⟨right, left, rest, rfl⟩
  | [] | [_] => exact .inr (combine_of_length_lt r op text (by simp [hp]))

theorem met_combine (r : Roller σ) (op : Operator) (text : String) (p : Pass σ) :
    (p.combine r op text).met = p.met := by
  rcases combine_cases r op text p with ⟨right, left, rest, hp⟩ | ⟨f, hf⟩
  · exact (combine_frame r op text hp).1
  · rw [hf]
    rfl

def closed (p : Pass σ) : Pass σ :=
  match p.operands with
  | _ :: _ :: _ => p.notice (.malformed (.valuesLeft p.operands.length))
  | _ => p

theorem closed_frame (p : Pass σ) :
    p.closed.pools = p.pools ∧ p.closed.source = p.source ∧ p.closed.operands = p.operands := by
  unfold closed
  split <;> exact ⟨rfl, rfl, rfl⟩

theorem finish_of_operands {x : Operand} {rest : List Operand} (h : p.operands = x :: rest) :
    p.finish r = (.ok (p.closed.settle r x).1, (p.closed.settle r x).2) := by
  cases rest <;> simp [finish, closed, h]

end Pass

namespace Tray

variable {σ : Type} {r : Roller σ} {tokens : List Token} {t : Tray} {s : σ}

theorem roll_of_passResult {result : Except Fault Number} {p : Pass σ}
    (h : passResult r tokens (t.start s) = (result, p)) :
    t.roll r tokens s = (result, (t.left p).conclude result, p.source) := by
  simp only [roll, walk, h]

theorem exists_left_of_roll (r : Roller σ) (tokens : List Token) (t : Tray) (s : σ) :
    ∃ p : Pass σ, (t.roll r tokens s).2.1 = (t.left p).conclude (t.roll r tokens s).1 :=
  ⟨(passResult r tokens (t.start s)).2, rfl⟩

theorem pools_conclude (result : Except Fault Number) (t : Tray) :
    (t.conclude result).pools = t.pools := by
  cases result <;> rfl

theorem passResult_of_run_stopped {f : Fault} {q : Pass σ}
    (h : Pass.run r tokens (t.start s) = (some f, q)) :
    passResult r tokens (t.start s) = (.error f, q) := by
  rw [passResult, h]

theorem passResult_of_run_ended {q : Pass σ} (h : Pass.run r tokens (t.start s) = (none, q)) :
    passResult r tokens (t.start s) = q.finish r := by
  rw [passResult, h]

theorem exists_of_roll_ok {n : Number} (h : (t.roll r tokens s).1 = .ok n) :
    ∃ p x rest, Pass.run r tokens (t.start s) = (none, p) ∧ p.operands = x :: rest ∧
      n = (p.closed.settle r x).1 ∧
      (t.roll r tokens s).2.1.pools = (p.closed.settle r x).2.pools ∧
      (t.roll r tokens s).2.1.notices = (p.closed.settle r x).2.notices ∧
      (t.roll r tokens s).2.2 = (p.closed.settle r x).2.source := by
  cases hrun : Pass.run r tokens (t.start s) with
  | mk stop p =>
      cases stop with
      | some f =>
          rw [roll_of_passResult (passResult_of_run_stopped hrun)] at h
          cases h
      | none =>
          have hfinish := passResult_of_run_ended hrun
          cases hx : p.operands with
          | nil =>
              rw [Pass.finish, hx] at hfinish
              rw [roll_of_passResult hfinish] at h
              cases h
          | cons x rest =>
              rw [Pass.finish_of_operands hx] at hfinish
              rw [roll_of_passResult hfinish] at h ⊢
              exact ⟨p, x, rest, rfl, hx, (Except.ok.inj h).symm, rfl, rfl, rfl⟩

theorem roll_of_run_stopped {f : Fault} {q : Pass σ}
    (h : Pass.run r tokens (t.start s) = (some f, q)) :
    (t.roll r tokens s).1 = .error f ∧ (t.roll r tokens s).2.1.pools = q.pools := by
  rw [roll_of_passResult (passResult_of_run_stopped h)]
  exact ⟨rfl, rfl⟩

theorem roll_of_run_ended {q : Pass σ} (h : Pass.run r tokens (t.start s) = (none, q)) :
    (t.roll r tokens s).1 = (q.finish r).1 ∧
      (t.roll r tokens s).2.1.pools = (q.finish r).2.pools := by
  rw [roll_of_passResult (passResult_of_run_ended h)]
  exact ⟨rfl, pools_conclude ..⟩

end Tray

end DiceTray

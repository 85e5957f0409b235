import DiceTray.Proofs.Tray.Failure

namespace DiceTray

def Token.isFixed (t : Token) : Bool :=
  match t.reading with
  | .ok (.fixed _) => true
  | _ => false

theorem Token.isFixed_of_blank? {t : Token} {p : Pool} (h : t.blank? = some p.blank) :
    t.isFixed = p.dice?.isNone := by
  rw [isFixed, reading_of_blank? h]
  rcases p with ⟨source, value | d | d⟩ <;> rfl

/-- What the tokens up to one of them amount to: the pool token that was met last, the number of
pool tokens, and the number of operators that found two operands. -/
structure Tally where
  latest? : Option Token := none
  pools : Nat := 0
  applied : Nat := 0

namespace Tally

def waiting (c : Tally) : Nat := c.pools - c.applied

def step (c : Tally) (t : Token) : Tally :=
  if t.kind.isPool then { c with latest? := some t, pools := c.pools + 1 }
  else
    match t.operator? with
    | some (.ok _) => if 1 < c.waiting then { c with applied := c.applied + 1 } else c
    | _ => c

def refusal? (c : Tally) (op : Operator) : Option SequenceFault :=
  match c.waiting with
  | 0 => some (.noOperands op)
  | 1 => some (.singleOperand op)
  | _ => none

def notice? (c : Tally) (t : Token) : Option Fault :=
  match t.kind with
  | .dice => if t.isFixed ∧ t.conditions ≠ [] then some .modifiersNotAllowed else none
  | .stunt => none
  | .modifier _ =>
      match c.latest? with
      | none => some (.malformed (.modifiesNothing t.text))
      | some u => if u.isFixed then some .modifiersNotAllowed else none
  | .operator op => (c.refusal? op).map .malformed
  | .math =>
      match Operator.ofText? t.data with
      | none => some (.malformed (.unknownOperator (Text.trimmed t.data)))
      | some op => (c.refusal? op).map .malformed

def notices (c : Tally) : List Token → List Fault
  | [] => if 1 < c.waiting then [.malformed (.valuesLeft c.waiting)] else []
  | t :: ts => (c.notice? t).toList ++ (c.step t).notices ts

variable {c : Tally} {t : Token}

theorem step_of_isPool (h : t.kind.isPool = true) :
    c.step t = { c with latest? := some t, pools := c.pools + 1 } := by
  simp [step, h]

theorem step_of_modifier {word : ModifierWord} (h : t.kind = .modifier word) : c.step t = c := by
  simp [step, Token.isPool_of_modifier h, Token.operator?_of_modifier h]

theorem step_of_unknown {f : Fault} (h : t.operator? = some (.error f)) : c.step t = c := by
  simp [step, Token.isPool_of_operator h, h]

theorem step_of_operator {op : Operator} (h : t.operator? = some (.ok op)) :
    c.step t = if 1 < c.waiting then { c with applied := c.applied + 1 } else c := by
  simp [step, Token.isPool_of_operator h, h]

theorem notice?_of_isPool (h : t.kind.isPool = true) :
    c.notice? t = if t.isFixed ∧ t.conditions ≠ [] then some .modifiersNotAllowed else none := by
  rcases t with ⟨kind, text, data, conditions⟩
  cases kind with
  | dice => rfl
  | stunt => rfl
  | _ => cases h

theorem notice?_of_modifier {word : ModifierWord} (h : t.kind = .modifier word) :
    c.notice? t =
      match c.latest? with
      | none => some (.malformed (.modifiesNothing t.text))
      | some u => if u.isFixed then some .modifiersNotAllowed else none := by
  simp only [notice?, h]

theorem notice?_of_unknown {f : Fault} (h : t.operator? = some (.error f)) :
    c.notice? t = some f := by
  rcases t with ⟨kind, text, data, conditions⟩
  cases kind with
  | math =>
      simp only [Token.operator?, Operator.read, Option.some.injEq] at h
      split at h
      · cases h
      case h_2 hn =>
          cases h
          simp only [notice?, hn]
  | _ => cases h

theorem notice?_of_operator {op : Operator} (h : t.operator? = some (.ok op)) :
    c.notice? t = (c.refusal? op).map .malformed := by
  rcases t with ⟨kind, text, data, conditions⟩
  cases kind with
  | math =>
      simp only [Token.operator?, Operator.read, Option.some.injEq] at h
      split at h
      case h_1 hop =>
          cases h
          simp only [notice?, hop]
      · cases h
  | operator op' => cases h; rfl
  | _ => cases h

end Tally

namespace Pass

variable {σ : Type} {r : Roller σ} {t : Token} {us later : List Token} {p q : Pass σ} {c : Tally}

structure Tallied (c : Tally) (us : List Token) (p : Pass σ) : Prop where
  latest : c.latest? = us.getLast?
  pools : c.pools = us.length
  applied : p.operands.length + c.applied = c.pools

theorem Tallied.waiting (h : Tallied c us p) : c.waiting = p.operands.length := by
  have ha := h.applied
  unfold Tally.waiting
  omega

theorem notices_keep_change (i : Nat) (pool : Pool) (g : Dice → Dice) (p : Pass σ) :
    (p.keep i (pool.change g)).notices =
      p.notices ++ (if pool.dice?.isNone then [.modifiersNotAllowed] else []) := by
  unfold Pool.change
  cases pool.dice? with
  | none => rfl
  | some d => exact (List.append_nil _).symm

theorem notices_condition (t : Token) {pool : Pool} (h : p.pools[p.met]? = some pool) :
    (p.condition t).notices =
      p.notices ++
        (if pool.dice?.isNone ∧ t.conditions ≠ [] then [.modifiersNotAllowed] else []) := by
  cases ht : t.conditions with
  | nil => simp [condition, ht]
  | cons a as =>
      simp only [condition, ht, h, Pool.setConditions]
      rw [notices_keep_change]
      simp

theorem Provided.frame (h : Provided r t p q) :
    q.notices = p.notices ∧ q.operands = p.operands := by
  cases h <;> (subst q; exact ⟨rfl, rfl⟩)

theorem meet_reports (h : Abreast us (t :: later) p) (ht : t.kind.isPool = true)
    (hread : t.readable = true) (hq : p.meet r t = .ok q) :
    q.notices = p.notices ++ (c.notice? t).toList ∧
      q.operands.length = p.operands.length + 1 := by
  obtain ⟨b, hb⟩ := Option.isSome_iff_exists.mp ((Token.isSome_blank? ht).trans hread)
  obtain ⟨p', hp', h', hlt⟩ := exists_provided (r := r) hb h
  obtain ⟨hn, ho⟩ := (provided_of_ok hp').frame
  obtain ⟨-, hco, -⟩ := condition_frame t p'
  have hpool := List.getElem?_eq_getElem hlt
  have htoken : (us ++ t :: later)[p'.met]? = some t := by simp [h'.met]
  have hblank := h'.stocked.blank?_eq htoken hpool
  rw [meet_of_provide hp'] at hq
  cases hq
  rw [Tally.notice?_of_isPool ht, Token.isFixed_of_blank? hblank]
  refine ⟨?_, by simp [push, hco, ho]⟩
  simp only [push, notices_condition t hpool, hn]
  congr 1
  split <;> rfl

theorem attach_reports (h : Abreast us later p) (hc : Tallied c us p) {word : ModifierWord}
    (ht : t.kind = .modifier word) :
    Tallied (c.step t) us (p.attach word t) ∧
      (p.attach word t).notices = p.notices ++ (c.notice? t).toList := by
  rw [Tally.step_of_modifier ht, Tally.notice?_of_modifier ht, hc.latest]
  refine ⟨⟨hc.latest, hc.pools, by rw [(attach_frame word t p).2.1]; exact hc.applied⟩, ?_⟩
  have hmet := h.met
  cases hm : p.met with
  | zero =>
      obtain rfl : us = [] := List.length_eq_zero_iff.mp (by omega)
      simp [attach, latest?, hm, notice]
  | succ i =>
      have hi : i < p.pools.length := by have := h.room; omega
      have hpool := List.getElem?_eq_getElem hi
      have hlast : us.getLast? = us[i]? := by
        rw [List.getLast?_eq_getElem?]
        congr 1
        omega
      obtain ⟨u, hu⟩ : ∃ u, us[i]? = some u := ⟨us[i], List.getElem?_eq_getElem (by omega)⟩
      have hblank := h.stocked.blank?_eq (by rw [List.getElem?_append_left (by omega), hu]) hpool
      simp only [attach, latest?, hm, hpool, Option.map_some, hlast, hu, Pool.setModifier,
        notices_keep_change, Token.isFixed_of_blank? hblank]
      split <;> rfl

theorem combine_reports (hc : Tallied c us p) {op : Operator}
    (ht : t.operator? = some (.ok op)) :
    Tallied (c.step t) us (p.combine r op t.text) ∧
      (p.combine r op t.text).notices = p.notices ++ (c.notice? t).toList := by
  have happlied := hc.applied
  rw [Tally.step_of_operator ht, Tally.notice?_of_operator ht, Tally.refusal?, hc.waiting]
  match hp : p.operands with
  | [] | [_] =>
      obtain ⟨f, hf⟩ := combine_of_length_lt r op t.text (p := p) (by simp [hp])
      refine ⟨?_, by simp [combine, hp, notice]⟩
      rw [if_neg (by simp), hf]
      exact ⟨hc.latest, hc.pools, happlied⟩
  | right :: left :: rest =>
      obtain ⟨-, hn, _, _, ho⟩ := combine_frame r op t.text hp
      refine ⟨?_, by simp [hn]⟩
      rw [if_pos (by simp)]
      refine ⟨hc.latest, hc.pools, ?_⟩
      simp only [ho, hp, List.length_cons] at happlied ⊢
      omega

theorem tallied_step (h : Abreast us (Token.poolTokens (t :: later)) p) (hc : Tallied c us p)
    (hread : t.readable = true) (hq : p.step r t = .ok q) :
    Tallied (c.step t) (us ++ Token.poolTokens [t]) q ∧
      q.notices = p.notices ++ (c.notice? t).toList := by
  have hapart : t.kind.isPool = false → us ++ Token.poolTokens [t] = us := fun ht => by
    rw [Token.poolTokens_cons_of_not_isPool ht]
    exact List.append_nil us
  cases t.role with
  | pool ht =>
      rw [Token.poolTokens_cons_of_isPool ht] at h ⊢
      rw [step_of_isPool ht] at hq
      obtain ⟨hn, ho⟩ := meet_reports h ht hread hq
      refine ⟨?_, hn⟩
      rw [Tally.step_of_isPool ht]
      refine ⟨by simp [Token.poolTokens], by simp [Token.poolTokens, hc.pools], ?_⟩
      have happlied := hc.applied
      simp only [ho]
      omega
  | modifier word ht =>
      rw [hapart (Token.isPool_of_modifier ht)]
      rw [step_of_modifier ht] at hq
      cases hq
      exact attach_reports h hc ht
  | unknown f ht =>
      rw [hapart (Token.isPool_of_operator ht), Tally.step_of_unknown ht,
        Tally.notice?_of_unknown ht]
      rw [step_of_unknown ht] at hq
      cases hq
      exact ⟨⟨hc.latest, hc.pools, hc.applied⟩, rfl⟩
  | operator op ht =>
      rw [hapart (Token.isPool_of_operator ht)]
      rw [step_of_operator ht] at hq
      cases hq
      exact combine_reports hc ht

theorem tallied_run {ts : List Token} (h : Abreast us (Token.poolTokens ts) p)
    (hc : Tallied c us p) (hts : ∀ t ∈ ts, t.readable = true) (hq : p.run r ts = (none, q)) :
    q.closed.notices = p.notices ++ c.notices ts := by
  induction ts generalizing us p c with
  | nil =>
      cases hq
      have hw := hc.waiting
      unfold closed Tally.notices
      match hp : q.operands with
      | [] | [_] => simp [hw, hp]
      | right :: left :: rest => simp [hw, hp, notice]
  | cons t ts ih =>
      have hread := hts t (by simp)
      obtain ⟨p', hp', ha⟩ := abreast_step (r := r) h hread
      obtain ⟨hc', hn⟩ := tallied_step h hc hread hp'
      rw [run_cons_ok hp'] at hq
      rw [ih ha hc' (fun u hu => hts u (by simp [hu])) hq, hn, List.append_assoc]
      rfl

end Pass

namespace Tray

variable {σ : Type} {r : Roller σ} {tokens : List Token} {t : Tray} {s : σ} {k : Nat}

theorem notices_roll (h : Stocked (Token.poolTokens tokens) t.pools)
    (htokens : ∀ u ∈ tokens, u.readable = true) {n : Number}
    (hn : (t.roll r tokens s).1 = .ok n) :
    (t.roll r tokens s).2.1.notices = Tally.notices {} tokens := by
  obtain ⟨p, x, rest, hrun, -, -, -, hnotices, -⟩ := exists_of_roll_ok hn
  have hstart := Pass.abreast_start h s
  have hempty : Pass.Tallied {} [] (t.start s) := ⟨rfl, rfl, rfl⟩
  rw [hnotices, (Pass.settle_frame r x p.closed).2.2,
    Pass.tallied_run hstart hempty htokens hrun]
  exact List.nil_append _

theorem notices_of_session (h : Session tokens k t)
    (hpools : ∃ u ∈ tokens, u.kind.isPool = true) (htokens : ∀ u ∈ tokens, u.readable = true)
    (r : Roller σ) (s : σ) :
    (∃ n, (t.roll r tokens s).1 = .ok n) ∧
      (t.roll r tokens s).2.1.notices = Tally.notices {} tokens ∧
      ∀ {j : Nat} {later : Tray} (_ : Session tokens j later) {τ : Type} (q : Roller τ) (u : τ),
        (later.roll q tokens u).2.1.notices = (t.roll r tokens s).2.1.notices := by
  have hsome : Token.poolTokens tokens ≠ [] := by
    obtain ⟨u, hu, hk⟩ := hpools
    exact List.ne_nil_of_mem (List.mem_filter.mpr ⟨hu, hk⟩)
  have hall : ∀ {j : Nat} {later : Tray} (_ : Session tokens j later) {τ : Type} (q : Roller τ)
      (u : τ), (∃ n, (later.roll q tokens u).1 = .ok n) ∧
        (later.roll q tokens u).2.1.notices = Tally.notices {} tokens := by
    intro j later hlater τ q u
    obtain ⟨-, -, hok⟩ := roll_of_readable (stocked_session hlater) htokens q u
    obtain ⟨n, hn⟩ := hok hsome
    exact ⟨⟨n, hn⟩, notices_roll (stocked_session hlater) htokens hn⟩
  refine ⟨(hall h r s).1, (hall h r s).2, fun hlater τ q u => ?_⟩
  rw [(hall hlater q u).2, (hall h r s).2]

theorem notices_of_session_all_kinds :
    let five : Condition := ⟨.equal, 5.0⟩
    let tokens : List Token :=
      [⟨.modifier .dropLow, "dl1", "1", []⟩, .math .mul, ⟨.dice, "5=5", "5", [five]⟩,
        ⟨.modifier .reroll, "r", "", []⟩, .math .sub, ⟨.stunt, "3d6=5", "", [five]⟩,
        ⟨.math, "%", " %", []⟩, .math .add, ⟨.modifier .keepHigh, "kh1", "1", []⟩, .dice "2d6"]
    let first := ({} : Tray).roll (Roller.replay [1, 2, 3]) tokens 0
    let shown := first.2.1.restore (.dice none "5")
    let second := shown.roll (Roller.replay [6, 6, 5]) tokens 0
    Session tokens 1 shown ∧ (∃ u ∈ tokens, u.kind.isPool = true) ∧
      (∀ u ∈ tokens, u.readable = true) ∧ (∃ n, second.1 = .ok n) ∧
      second.2.1.notices =
        [.malformed (.modifiesNothing "dl1"), .malformed (.noOperands .mul), .modifiersNotAllowed,
          .modifiersNotAllowed, .malformed (.singleOperand .sub),
          .malformed (.unknownOperator "%"), .malformed (.valuesLeft 2)] ∧
      first.2.1.notices = second.2.1.notices := by
  intro five tokens first shown second
  have hpools : ∃ u ∈ tokens, u.kind.isPool = true := ⟨.dice "2d6", by simp [tokens], rfl⟩
  have hread : ∀ u ∈ tokens, u.readable = true := by
    have hall : tokens.all Token.readable = true := by decide
    exact List.all_eq_true.mp hall
  obtain ⟨⟨n, hn⟩, -, -⟩ := notices_of_session .start hpools hread (Roller.replay [1, 2, 3]) 0
  have hshown : Session tokens 1 shown := .restored (.passed .start _ _ hn) _
  obtain ⟨hok, hnotices, hsame⟩ :=
    notices_of_session hshown hpools hread (Roller.replay [6, 6, 5]) 0
  refine ⟨hshown, hpools, hread, hok, hnotices.trans ?_, hsame .start _ _⟩
  decide

end Tray

end DiceTray

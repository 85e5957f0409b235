import DiceTray.Proofs.Tray.Notices

namespace DiceTray

open Pool (cleared)

/-- The pools differ at most in the dice on the table, and at the places in `rolled` not even so. -/
structure AlikeAt (rolled : Nat → Prop) (ps qs : List Pool) : Prop where
  cleared : ps.map cleared = qs.map cleared
  rolled : ∀ i, rolled i → ps[i]? = qs[i]?

namespace AlikeAt

variable {rolled rolled' : Nat → Prop} {ps qs : List Pool}

theorem mono (h : AlikeAt rolled ps qs) (hr : ∀ i, rolled' i → rolled i) : AlikeAt rolled' ps qs :=
  ⟨h.cleared, fun i hi => h.rolled i (hr i hi)⟩

theorem length_eq (h : AlikeAt rolled ps qs) : ps.length = qs.length := by
  simpa using congrArg List.length h.cleared

theorem getElem?_cleared (h : AlikeAt rolled ps qs) (i : Nat) :
    ps[i]?.map Pool.cleared = qs[i]?.map Pool.cleared := by
  simpa using congrArg (fun l => l[i]?) h.cleared

theorem modify {f f' : Pool → Pool} (h : AlikeAt rolled ps qs)
    (hf : ∀ p, (f p).cleared = f' p.cleared) (i : Nat) :
    AlikeAt rolled (ps.modify i f) (qs.modify i f) := by
  refine ⟨by rw [map_modify hf, map_modify hf, h.cleared], fun j hj => ?_⟩
  rw [List.getElem?_modify, List.getElem?_modify, h.rolled j hj]

theorem set (h : AlikeAt rolled ps qs) (i : Nat) (pool : Pool) :
    AlikeAt (fun j => rolled j ∨ i = j) (ps.set i pool) (qs.set i pool) := by
  refine ⟨by rw [List.map_set, List.map_set, h.cleared], fun j hj => ?_⟩
  rw [List.getElem?_set, List.getElem?_set, h.length_eq]
  by_cases hij : i = j
  · rw [if_pos hij, if_pos hij]
  · rw [if_neg hij, if_neg hij]
    exact h.rolled j (hj.resolve_right hij)

theorem append (h : AlikeAt rolled ps qs) (pool : Pool) :
    AlikeAt rolled (ps ++ [pool]) (qs ++ [pool]) := by
  refine ⟨by rw [List.map_append, List.map_append, h.cleared], fun j hj => ?_⟩
  rw [List.getElem?_append, List.getElem?_append, h.length_eq, h.rolled j hj]

theorem eq_of_forall_lt (h : AlikeAt rolled ps qs) (hr : ∀ i < ps.length, rolled i) : ps = qs := by
  refine List.ext_getElem? fun i => ?_
  rcases Nat.lt_or_ge i ps.length with hlt | hge
  · exact h.rolled i (hr i hlt)
  · rw [List.getElem?_eq_none hge, List.getElem?_eq_none (h.length_eq ▸ hge)]

end AlikeAt

namespace Pool

variable {σ : Type} {p q : Pool}

theorem roll_cleared (r : Roller σ) (p : Pool) (s : σ) : p.cleared.roll r s = p.roll r s := by
  rcases p with ⟨source, value | d | d⟩ <;> rfl

theorem cleared_judged (t : Token) (p : Pool) : (p.judged t).cleared = p.cleared.judged t := by
  unfold judged
  split
  · rfl
  · rcases p with ⟨source, value | d | d⟩ <;> rfl

def withAttached (ms : Modifiers) (conditions : List Condition) (p : Pool) : Pool :=
  match p.dice? with
  | none => p
  | some d => p.withDice { d with modifiers := ms, conditions }

theorem withAttached_blank (p : Pool) :
    p.blank.withAttached p.modifiers p.conditions = p.cleared := by
  rcases p with ⟨source, value | d | d⟩ <;> rfl

end Pool

namespace Pass

variable {σ : Type} {r : Roller σ} {rolled : Nat → Prop} {t : Token} {p p' q q' : Pass σ}

structure Alike (rolled : Nat → Prop) (p q : Pass σ) : Prop where
  source : p.source = q.source
  met : p.met = q.met
  operands : p.operands = q.operands
  stuntPoints : p.stuntPoints = q.stuntPoints
  pools : AlikeAt rolled p.pools q.pools

def settled (p : Pass σ) (i : Nat) : Prop := i < p.met ∧ .pool i ∉ p.operands

theorem Alike.mono {rolled' : Nat → Prop} (h : Alike rolled p q)
    (hr : ∀ i, rolled' i → rolled i) : Alike rolled' p q :=
  ⟨h.source, h.met, h.operands, h.stuntPoints, h.pools.mono hr⟩

theorem alike_settle (h : Alike rolled p q) (x : Operand) :
    (p.settle r x).1 = (q.settle r x).1 ∧
      Alike (fun i => rolled i ∨ x = .pool i) (p.settle r x).2 (q.settle r x).2 := by
  cases x with
  | folded pool fixed =>
      rw [settle_folded, settle_folded]
      exact ⟨rfl, h.mono fun i hi => hi.resolve_right nofun⟩
  | pool i =>
      have hc := h.pools.getElem?_cleared i
      cases hp : p.pools[i]? with
      | none =>
          rw [hp] at hc
          have hq := Option.map_eq_none_iff.mp hc.symm
          simp only [settle, hp, hq]
          refine ⟨trivial, h.source, h.met, h.operands, h.stuntPoints, h.pools.cleared, ?_⟩
          rintro j (hj | hj)
          · exact h.pools.rolled j hj
          · cases hj
            rw [hp, hq]
      | some pool =>
          rw [hp] at hc
          obtain ⟨pool', hq, he⟩ := Option.map_eq_some_iff.mp hc.symm
          have hroll : pool.roll r p.source = pool'.roll r q.source := by
            rw [← Pool.roll_cleared, ← Pool.roll_cleared r pool', he, h.source]
          have hrolled : pool.rolled r p.source = pool'.rolled r q.source :=
            congrArg (fun x => x.2.1) hroll
          rw [settle_pool hp, settle_pool hq, hroll, hrolled, h.stuntPoints]
          refine ⟨rfl, rfl, h.met, h.operands, rfl, ?_⟩
          refine (h.pools.set i (pool'.rolled r q.source)).mono ?_
          rintro j (hj | hj)
          · exact .inl hj
          · cases hj
            exact .inr rfl

theorem alike_closed (h : Alike rolled p q) : Alike rolled p.closed q.closed := by
  unfold closed
  rw [h.operands]
  split <;> exact ⟨h.source, h.met, h.operands, h.stuntPoints, h.pools⟩

theorem closed_of_singleton {x : Operand} (h : p.operands = [x]) : p.closed = p := by
  simp only [closed, h]

theorem mem_notices_closed {x y : Operand} {rest : List Operand}
    (h : p.operands = x :: y :: rest) :
    .malformed (.valuesLeft p.operands.length) ∈ p.closed.notices := by
  simp [closed, h, notice]

theorem stuntPoints_keep (i : Nat) (change : Except Fault Pool) (p : Pass σ) :
    (p.keep i change).stuntPoints = p.stuntPoints := by
  cases change <;> rfl

theorem stuntPoints_condition (t : Token) (p : Pass σ) :
    (p.condition t).stuntPoints = p.stuntPoints := by
  unfold condition
  split
  · exact stuntPoints_keep ..
  · rfl

theorem stuntPoints_attach (word : ModifierWord) (t : Token) (p : Pass σ) :
    (p.attach word t).stuntPoints = p.stuntPoints := by
  unfold attach
  split
  · rfl
  · exact stuntPoints_keep ..

theorem alike_provided (h : Alike rolled p q) (hp : Provided r t p p')
    (hq : Provided r t q q') : Alike rolled p' q' := by
  have hlen := h.pools.length_eq
  have hmet := h.met
  cases hp with
  | kept hlt e =>
      subst e
      cases hq with
      | kept _ e =>
          subst e
          exact h
      | created hge => omega
  | created hge pool s hc e =>
      subst e
      cases hq with
      | kept hlt => omega
      | created _ pool' s' hc' e =>
          subst e
          rw [h.source, hc'] at hc
          cases hc
          exact ⟨rfl, h.met, h.operands, h.stuntPoints, h.pools.append pool⟩

theorem alike_condition (h : Alike rolled p q) (t : Token) :
    Alike rolled (p.condition t) (q.condition t) := by
  obtain ⟨hpm, hpo, hps⟩ := condition_frame t p
  obtain ⟨hqm, hqo, hqs⟩ := condition_frame t q
  refine ⟨?_, ?_, ?_, ?_, ?_⟩
  · rw [hps, hqs, h.source]
  · rw [hpm, hqm, h.met]
  · rw [hpo, hqo, h.operands]
  · rw [stuntPoints_condition, stuntPoints_condition, h.stuntPoints]
  · rw [pools_condition, pools_condition, h.met]
    exact h.pools.modify (Pool.cleared_judged t) q.met

theorem alike_meet (h : Alike rolled p q) (hp : p.meet r t = .ok p') (hq : q.meet r t = .ok q') :
    Alike rolled p' q' := by
  obtain ⟨p₁, hp₁, rfl⟩ := exists_of_meet hp
  obtain ⟨q₁, hq₁, rfl⟩ := exists_of_meet hq
  have h₁ := alike_provided h hp₁ hq₁
  have hc := alike_condition h₁ t
  refine ⟨hc.source, ?_, ?_, hc.stuntPoints, hc.pools⟩
  · simp only [h₁.met]
  · simp only [push, hc.operands, h₁.met]

theorem settled_of_meet (hp : p.meet r t = .ok p') {i : Nat} (hi : p'.settled i) :
    p.settled i := by
  obtain ⟨p₁, hp₁, rfl⟩ := exists_of_meet hp
  obtain ⟨-, ho, -⟩ := condition_frame t p₁
  have hframe : p₁.met = p.met ∧ p₁.operands = p.operands := by
    cases hp₁ <;> (subst p₁; exact ⟨rfl, rfl⟩)
  obtain ⟨hlt, hwait⟩ := hi
  simp only [push, ho, hframe.1, hframe.2, List.mem_cons, not_or, Operand.pool.injEq] at hlt hwait
  exact ⟨by omega, hwait.2⟩

theorem alike_attach (h : Alike rolled p q) {word : ModifierWord} (ht : t.kind = .modifier word) :
    Alike rolled (p.attach word t) (q.attach word t) := by
  obtain ⟨hpm, hpo, hps⟩ := attach_frame word t p
  obtain ⟨hqm, hqo, hqs⟩ := attach_frame word t q
  refine ⟨?_, ?_, ?_, ?_, ?_⟩
  · rw [hps, hqs, h.source]
  · rw [hpm, hqm, h.met]
  · rw [hpo, hqo, h.operands]
  · rw [stuntPoints_attach, stuntPoints_attach, h.stuntPoints]
  · rw [pools_attach ht, pools_attach ht, h.met]
    cases q.met with
    | zero => exact h.pools
    | succ i => exact h.pools.modify (Pool.cleared_dressed [t]) i

theorem alike_combine (h : Alike p.settled p q) (op : Operator) (text : String) :
    Alike (p.combine r op text).settled (p.combine r op text) (q.combine r op text) := by
  match ho : p.operands with
  | [] | [_] =>
      obtain ⟨f, hf⟩ := combine_of_length_lt r op text (p := p) (by simp [ho])
      obtain ⟨g, hg⟩ := combine_of_length_lt r op text (p := q) (by simp [← h.operands, ho])
      rw [hf, hg]
      exact ⟨h.source, h.met, h.operands, h.stuntPoints, h.pools⟩
  | right :: left :: rest =>
      have h₀ : Alike p.settled { p with operands := rest } { q with operands := rest } :=
        ⟨h.source, h.met, rfl, h.stuntPoints, h.pools⟩
      obtain ⟨hb, h₁⟩ := alike_settle (r := r) h₀ right
      obtain ⟨ha, h₂⟩ := alike_settle (r := r) h₁ left
      rw [combine_of_operands ho, combine_of_operands (h.operands.symm.trans ho)]
      refine ⟨h₂.source, h₂.met, ?_, h₂.stuntPoints, h₂.pools.mono ?_⟩
      · simp only [push, ha, hb, h₂.operands]
      · obtain ⟨hbm, hbo, -⟩ := settle_frame r right { p with operands := rest }
        obtain ⟨ham, hao, -⟩ := settle_frame r left ({ p with operands := rest }.settle r right).2
        rintro i ⟨hlt, hwait⟩
        simp only [push, hao, hbo, ham, hbm, List.mem_cons, not_or] at hlt hwait
        by_cases hright : right = .pool i
        · exact .inl (.inr hright)
        · by_cases hleft : left = .pool i
          · exact .inr hleft
          · refine .inl (.inl ⟨hlt, ?_⟩)
            simp [ho, Ne.symm hright, Ne.symm hleft, hwait.2]

theorem alike_step (h : Alike p.settled p q) (hp : p.step r t = .ok p')
    (hq : q.step r t = .ok q') : Alike p'.settled p' q' := by
  cases t.role with
  | pool ht =>
      rw [step_of_isPool ht] at hp hq
      exact (alike_meet h hp hq).mono fun i hi => settled_of_meet hp hi
  | modifier word ht => 
      rw [step_of_modifier ht] at hp hq
      cases hp
      cases hq
      obtain ⟨hpm, hpo, -⟩ := attach_frame word t p
      refine (alike_attach h ht).mono fun i hi => ?_
      rwa [settled, hpm, hpo] at hi
  | unknown f ht =>
      rw [step_of_unknown ht] at hp hq
      cases hp
      cases hq
      exact ⟨h.source, h.met, h.operands, h.stuntPoints, h.pools⟩
  | operator op ht =>
      rw [step_of_operator ht] at hp hq
      cases hp
      cases hq
      exact alike_combine h op t.text

theorem alike_run {ts : List Token} (h : Alike p.settled p q) (hp : p.run r ts = (none, p'))
    (hq : q.run r ts = (none, q')) : Alike p'.settled p' q' := by
  induction ts generalizing p q with
  | nil =>
      cases hp
      cases hq
      exact h
  | cons t ts ih =>
      cases hps : p.step r t with
      | error f => simp [run, hps] at hp
      | ok p₁ =>
          cases hqs : q.step r t with
          | error f => simp [run, hqs] at hq
          | ok q₁ =>
              rw [run_cons_ok hps] at hp
              rw [run_cons_ok hqs] at hq
              exact ih (alike_step h hps hqs) hp hq

theorem pools_settle_eq (h : Alike p.settled p q) {x : Operand} (hx : p.operands = [x])
    (hmet : p.pools.length ≤ p.met) :
    (p.settle r x).2.pools = (q.settle r x).2.pools := by
  obtain ⟨-, hsettled⟩ := alike_settle (r := r) h x
  have hlen : (p.settle r x).2.pools.length = p.pools.length := by
    simpa using congrArg List.length (cleared_settle r x p)
  refine hsettled.pools.eq_of_forall_lt fun i hi => ?_
  by_cases hxi : x = .pool i
  · exact .inr hxi
  · exact .inl ⟨by omega, by simp [hx, Ne.symm hxi]⟩

end Pass

theorem Group.length_all (ts : List Token) : (all ts).length = (Token.poolTokens ts).length := by
  induction ts with
  | nil => rfl
  | cons t ts ih =>
      cases h : t.kind.isPool with
      | true => simp [all, h, Token.poolTokens_cons_of_isPool h, ih]
      | false => simp [all, h, Token.poolTokens_cons_of_not_isPool h, ih]

namespace Tray

variable {σ : Type} {r : Roller σ} {tokens : List Token} {t u : Tray} {s : σ} {j k : Nat}

theorem map_blank_of_session (h : Session tokens k t) (hk : 0 < k) :
    (t.pools.map fun p => some p.blank) = (Token.poolTokens tokens).map Token.blank? := by
  have hlen := (laid_session h).2 hk
  rw [Group.length_all] at hlen
  exact (stocked_session h).map_eq hlen

theorem forall₂_bound_of_session (h : Session tokens k t) (hk : 0 < k) :
    List.Forall₂ Pool.Bound (Group.all tokens) t.pools :=
  forall₂_bound_of_laid (laid_session h).1 ((laid_session h).2 hk)

theorem alikeAt_of_sessions (ht : Session tokens j t) (hu : Session tokens k u) (hj : 0 < j)
    (hk : 0 < k) : AlikeAt (fun _ => False) t.pools u.pools := by
  have hattached := map_eq_of_forall₂_bound (forall₂_bound_of_session ht hj)
    (forall₂_bound_of_session hu hk)
  have hblank : t.pools.map Pool.blank = u.pools.map Pool.blank := by
    refine List.map_injective_iff.mpr (fun _ _ => Option.some.inj) ?_
    rw [List.map_map, List.map_map]
    exact (map_blank_of_session ht hj).trans (map_blank_of_session hu hk).symm
  have hcleared (ps : List Pool) : ps.map cleared =
      (ps.map Pool.blank).zipWith (fun p a => p.withAttached a.1 a.2)
        (ps.map fun p => (p.modifiers, p.conditions)) := by
    simp [List.zipWith_map, List.zipWith_self, Pool.withAttached_blank]
  exact ⟨by rw [hcleared, hblank, hattached, ← hcleared], nofun⟩

theorem roll_eq_of_run {p : Pass σ} {x : Operand} {rest : List Operand}
    (h : Pass.run r tokens (t.start s) = (none, p)) (hx : p.operands = x :: rest) :
    t.roll r tokens s =
      (.ok (p.closed.settle r x).1,
        { pools := (p.closed.settle r x).2.pools
          result := some (p.closed.settle r x).1
          stuntPoints := (p.closed.settle r x).2.stuntPoints
          notices := (p.closed.settle r x).2.notices },
        (p.closed.settle r x).2.source) := by
  have hfinish := passResult_of_run_ended h
  rw [Pass.finish_of_operands hx] at hfinish
  rw [roll_of_passResult hfinish]
  rfl

theorem verdict?_of_session (h : Session tokens k t) (hk : 0 < k) : verdict? tokens = none := by
  induction h with
  | start => cases hk
  | passed h r s hn _ =>
      cases hv : verdict? tokens with
      | none => rfl
      | some f => cases hn.symm.trans ((roll_error_iff h r s).mpr hv)
  | aborted _ _ _ _ ih => exact ih hk
  | restored _ _ ih => exact ih hk

theorem length_pools_le_met (h : Stocked (Token.poolTokens tokens) t.pools)
    (htokens : ∀ v ∈ tokens, v.readable = true) {p : Pass σ}
    (hp : Pass.run r tokens (t.start s) = (none, p)) : p.pools.length ≤ p.met := by
  obtain ⟨q, hq, ha⟩ := Pass.abreast_run (r := r) (Pass.abreast_start h s) htokens
  cases hp.symm.trans hq
  simpa [ha.met] using ha.stocked.length_le

theorem alike_start (h : AlikeAt (fun _ => False) t.pools u.pools) (s : σ) :
    Pass.Alike (t.start s).settled (t.start s) (u.start s) :=
  ⟨rfl, rfl, rfl, rfl, h.mono fun _ hi => Nat.not_lt_zero _ hi.1⟩

theorem roll_of_sessions (ht : Session tokens j t) (hu : Session tokens k u) (hj : 0 < j)
    (hk : 0 < k) (r : Roller σ) (s : σ) :
    let a := t.roll r tokens s
    let b := u.roll r tokens s
    (∃ n, a.1 = .ok n) ∧ a.1 = b.1 ∧ a.2.1.notices = b.2.1.notices ∧
      a.2.1.annotation? = b.2.1.annotation? ∧ a.2.2 = b.2.2 ∧
      ((∀ n, .malformed (.valuesLeft n) ∉ a.2.1.notices) →
        a.2.1.pools = b.2.1.pools ∧
          ∀ expression, a.2.1.tooltip expression = b.2.1.tooltip expression) := by
  intro a b
  have hverdict := verdict?_of_session ht hj
  obtain ⟨n, hn⟩ := (roll_of_verdict? (stocked_session ht) r s).2 hverdict
  obtain ⟨m, hm⟩ := (roll_of_verdict? (stocked_session hu) r s).2 hverdict
  have hreadable := readable_of_roll_ok (stocked_session ht) hn
  have hnotices : a.2.1.notices = b.2.1.notices :=
    (notices_roll (stocked_session ht) hreadable hn).trans
      (notices_roll (stocked_session hu) hreadable hm).symm
  obtain ⟨p, x, rest, hp, hx, -⟩ := exists_of_roll_ok hn
  obtain ⟨q, y, rest', hq, hy, -⟩ := exists_of_roll_ok hm
  have h := Pass.alike_run (alike_start (alikeAt_of_sessions ht hu hj hk) s) hp hq
  obtain ⟨rfl, rfl⟩ : x = y ∧ rest = rest' := by simpa [hx, hy] using h.operands
  obtain ⟨hvalue, hsettled⟩ := Pass.alike_settle (r := r) (Pass.alike_closed h) x
  have ha : a = _ := roll_eq_of_run hp hx
  have hb : b = _ := roll_eq_of_run hq hy
  rw [ha, hb] at hnotices ⊢
  refine ⟨⟨_, rfl⟩, congrArg Except.ok hvalue, hnotices, ?_, hsettled.source, fun hleft => ?_⟩
  · simp only [annotation?, hsettled.stuntPoints]
  · have hrest : rest = [] := by
      cases rest with
      | nil => rfl
      | cons z zs =>
          refine absurd ?_ (hleft p.operands.length)
          rw [(Pass.settle_frame r x p.closed).2.2]
          exact Pass.mem_notices_closed hx
    rw [hrest] at hx hy
    have hmet := length_pools_le_met (stocked_session ht) hreadable hp
    have hpools : (p.closed.settle r x).2.pools = (q.closed.settle r x).2.pools := by
      rw [Pass.closed_of_singleton hx, Pass.closed_of_singleton hy]
      exact Pass.pools_settle_eq h hx hmet
    exact ⟨hpools, fun expression => by simp only [tooltip, hpools]⟩

theorem roll_of_sessions_reused :
    let tokens : List Token :=
      [.dice "2d6", ⟨.modifier .keepHigh, "kh1", "1", []⟩, .stunt "s", .math .add]
    let once := ({} : Tray).roll (Roller.replay [1, 2, 3]) tokens 0
    let twice := once.2.1.roll (Roller.replay [6]) tokens 0
    let shown := twice.2.1.restore (.dice (some (.int 9)) "9")
    let a := once.2.1.roll (Roller.replay [4, 4, 5]) tokens 1
    let b := shown.roll (Roller.replay [4, 4, 5]) tokens 1
    Session tokens 1 once.2.1 ∧ Session tokens 2 shown ∧ (∃ n, a.1 = .ok n) ∧ a.1 = b.1 ∧
      (∀ n, .malformed (.valuesLeft n) ∉ a.2.1.notices) ∧ a.2.1.pools = b.2.1.pools ∧
      a.2.1.tooltip "2d6 + s" = b.2.1.tooltip "2d6 + s" := by
  intro tokens once twice shown a b
  have hverdict : verdict? tokens = none := by decide
  have hok {k : Nat} {t : Tray} (h : Session tokens k t) (r : Roller Nat) (s : Nat) :
      ∃ n, (t.roll r tokens s).1 = .ok n := (roll_of_verdict? (stocked_session h) r s).2 hverdict
  obtain ⟨n, hn⟩ := hok .start (Roller.replay [1, 2, 3]) 0
  have honce : Session tokens 1 once.2.1 := .passed .start _ _ hn
  obtain ⟨m, hm⟩ := hok honce (Roller.replay [6]) 0
  have hshown : Session tokens 2 shown := .restored (.passed honce _ _ hm) _
  obtain ⟨⟨v, hv⟩, hresult, -, -, -, hpools⟩ :=
    roll_of_sessions honce hshown (by decide) (by decide) (Roller.replay [4, 4, 5]) 1
  have hleft (n : Nat) : .malformed (.valuesLeft n) ∉ a.2.1.notices := by
    have hread := readable_of_roll_ok (stocked_session honce) hv
    have hnone : Tally.notices {} tokens = [] := by decide
    rw [notices_roll (stocked_session honce) hread hv, hnone]
    exact List.not_mem_nil
  obtain ⟨hsame, htooltip⟩ := hpools hleft
  exact ⟨honce, hshown, ⟨v, hv⟩, hresult, hleft, by rw [hsame], by rw [htooltip]⟩

end Tray

end DiceTray

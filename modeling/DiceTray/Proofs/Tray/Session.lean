import DiceTray.Proofs.Pool.Binding
import DiceTray.Proofs.Tray.Walk
import Mathlib.Data.List.Forall2

namespace DiceTray

/-- What an expression goes through: passes with any rollers, of which those that succeed are
counted, and stored outcomes that are shown in between. -/
inductive Session (tokens : List Token) : Nat → Tray → Prop where
  | start : Session tokens 0 {}
  | passed {σ : Type} {k : Nat} {t : Tray} (h : Session tokens k t) (r : Roller σ) (s : σ)
      {n : Number} (hn : (t.roll r tokens s).1 = .ok n) :
      Session tokens (k + 1) (t.roll r tokens s).2.1
  | aborted {σ : Type} {k : Nat} {t : Tray} (h : Session tokens k t) (r : Roller σ) (s : σ)
      {f : Fault} (hf : (t.roll r tokens s).1 = .error f) :
      Session tokens k (t.roll r tokens s).2.1
  | restored {k : Nat} {t : Tray} (h : Session tokens k t) (shown : Snapshot) :
      Session tokens k (t.restore shown)

open Pool (cleared dressed Bound Fits)

structure Laid (gs : List Group) (ps : List Pool) : Prop where
  length_le : ps.length ≤ gs.length
  bound : ∀ {i : Nat} {g : Group} {p : Pool}, gs[i]? = some g → ps[i]? = some p → Bound g p

section

variable {gs : List Group} {g : Group} {ps qs : List Pool} {p : Pool}

theorem laid_nil : Laid gs [] := ⟨Nat.zero_le _, fun _ hp => by cases hp⟩

theorem laid_of_cleared (h : qs.map cleared = ps.map cleared) (hps : Laid gs ps) : Laid gs qs := by
  have hlen : qs.length = ps.length := by simpa using congrArg List.length h
  refine ⟨hlen ▸ hps.length_le, fun {i g p} hg hp => ?_⟩
  have hi : (ps.map cleared)[i]? = some p.cleared := by rw [← h, List.getElem?_map, hp]; rfl
  rw [List.getElem?_map] at hi
  obtain ⟨q, hq, he⟩ := Option.map_eq_some_iff.mp hi
  have hb := Pool.bound_cleared.mpr (hps.bound hg hq)
  rw [he] at hb
  exact Pool.bound_cleared.mp hb

theorem laid_append (h : Laid gs ps) (hg : gs[ps.length]? = some g) (hp : Bound g p) :
    Laid gs (ps ++ [p]) := by
  have hlt : ps.length < gs.length := (List.getElem?_eq_some_iff.mp hg).1
  refine ⟨by simpa using Nat.succ_le_of_lt hlt, fun {i g' p'} hg' hp' => ?_⟩
  rcases Nat.lt_trichotomy i ps.length with hi | rfl | hi
  · exact h.bound hg' (List.getElem?_append_left hi ▸ hp')
  · rw [List.getElem?_concat_length] at hp'
    cases hp'
    cases hg.symm.trans hg'
    exact hp
  · rw [List.getElem?_eq_none (by simpa using Nat.succ_le_of_lt hi)] at hp'
    cases hp'

theorem laid_modify {i : Nat} {f : Pool → Pool} (h : Laid gs ps) (hg : gs[i]? = some g)
    (hf : ∀ p, Bound g p → Bound g (f p)) : Laid gs (ps.modify i f) := by
  refine ⟨by simpa using h.length_le, fun {j g' p'} hg' hp' => ?_⟩
  rw [List.getElem?_modify] at hp'
  obtain ⟨p, hp, rfl⟩ := Option.map_eq_some_iff.mp hp'
  have hb := h.bound hg' hp
  split
  case isTrue hij =>
    subst hij
    cases hg.symm.trans hg'
    exact hf p hb
  case isFalse => exact hb

end

namespace Pass

variable {σ : Type} {r : Roller σ} {t : Token} {p q : Pass σ}

theorem cleared_settle (r : Roller σ) (x : Operand) (p : Pass σ) :
    (p.settle r x).2.pools.map cleared = p.pools.map cleared := by
  cases x with
  | folded pool h => rw [settle_folded h]
  | pool i =>
      cases hp : p.pools[i]? with
      | none => simp [settle, hp]
      | some pool =>
          rw [settle_pool hp]
          have hset := set_eq_modify_of_getElem? (fun pool => pool.rolled r p.source) hp
          simp only [hset]
          exact map_modify_eq (fun pool => Pool.cleared_rolled r pool p.source) ..

theorem cleared_combine (r : Roller σ) (op : Operator) (text : String) (p : Pass σ) :
    (p.combine r op text).pools.map cleared = p.pools.map cleared := by
  rcases combine_cases r op text p with ⟨right, left, rest, hp⟩ | ⟨f, hf⟩
  · rw [combine_of_operands hp]
    exact (cleared_settle ..).trans (cleared_settle ..)
  · rw [hf]
    rfl

theorem cleared_finish (r : Roller σ) (p : Pass σ) :
    (p.finish r).2.pools.map cleared = p.pools.map cleared := by
  cases hp : p.operands with
  | nil => simp [finish, hp]
  | cons x rest =>
      rw [finish_of_operands hp, cleared_settle, (closed_frame p).1]

def dressAt (met : Nat) (ts : List Token) (ps : List Pool) : List Pool :=
  match met with
  | 0 => ps
  | i + 1 => ps.modify i (dressed ts)

theorem cleared_dressAt (met : Nat) (ts : List Token) (ps : List Pool) :
    (dressAt met ts ps).map cleared = dressAt met ts (ps.map cleared) := by
  cases met with
  | zero => rfl
  | succ i => exact map_modify (Pool.cleared_dressed ts) ..

theorem dressAt_cons (met : Nat) (t : Token) (ts : List Token) (ps : List Pool) :
    dressAt met ts (dressAt met [t] ps) = dressAt met (t :: ts) ps := by
  cases met with
  | zero => rfl
  | succ i => exact List.modify_modify_eq ..

theorem dressAt_of_not_isModifier (met : Nat) (ht : t.kind.isModifier = false) (ps : List Pool) :
    dressAt met [t] ps = ps := by
  have hid : dressed [t] = id := funext fun pool => Pool.attached_of_not_isModifier ht pool
  cases met with
  | zero => rfl
  | succ i => simp [dressAt, hid]

theorem pools_attach {word : ModifierWord} (ht : t.kind = .modifier word) (p : Pass σ) :
    (p.attach word t).pools = dressAt p.met [t] p.pools := by
  cases hm : p.met with
  | zero => exact pools_attach_of_met_eq_zero hm
  | succ i =>
      have hd : dressed [t] = Pool.modified word t :=
        funext fun pool => Pool.attached_of_modifier ht pool
      rw [pools_attach_of_met_eq_succ hm, dressAt, hd]

theorem step_apart (ht : t.kind.isPool = false) (p : Pass σ) :
    ∃ q, p.step r t = .ok q ∧ q.met = p.met ∧
      q.pools.map cleared = (dressAt p.met [t] p.pools).map cleared := by
  cases t.role with
  | pool h => cases ht.symm.trans h
  | modifier word h =>
      refine ⟨p.attach word t, step_of_modifier h, (attach_frame word t p).1, ?_⟩
      rw [pools_attach h]
  | unknown f h =>
      refine ⟨p.notice f, step_of_unknown h, rfl, ?_⟩
      rw [dressAt_of_not_isModifier _ (Token.isModifier_of_operator h)]
      rfl
  | operator op h =>
      refine ⟨p.combine r op t.text, step_of_operator h, met_combine r op t.text p, ?_⟩
      rw [dressAt_of_not_isModifier _ (Token.isModifier_of_operator h)]
      exact cleared_combine r op t.text p

theorem run_apart {ts : List Token} (hts : ∀ t ∈ ts, t.kind.isPool = false) (p : Pass σ) :
    ∃ q, p.run r ts = (none, q) ∧ q.met = p.met ∧
      q.pools.map cleared = (dressAt p.met ts p.pools).map cleared := by
  induction ts generalizing p with
  | nil =>
      refine ⟨p, rfl, rfl, ?_⟩
      cases p.met with
      | zero => rfl
      | succ i => exact (congrArg _ (List.modify_id i p.pools)).symm
  | cons t ts ih =>
      obtain ⟨p', hs, hm, hp'⟩ := step_apart (r := r) (hts t (by simp)) p
      obtain ⟨q, hq, hqm, hqp⟩ := ih (fun u hu => hts u (by simp [hu])) p'
      refine ⟨q, (run_cons_ok hs).trans hq, hqm.trans hm, ?_⟩
      rw [hqp, hm, cleared_dressAt, hp', ← cleared_dressAt, dressAt_cons]

theorem laid_provided {gs : List Group} {g : Group} (h : Laid gs p.pools)
    (hg : gs[p.met]? = some g) (hroom : p.met ≤ p.pools.length) (hq : Provided r g.head p q) :
    Laid gs (q.pools.modify p.met fun pool => (pool.judged g.head).dressed g.rest) := by
  cases hq with
  | kept _ e =>
      subst e
      exact laid_modify h hg fun pool hb => hb.fits.bound
  | created hge pool s hc e =>
      subst e
      have hm : p.met = p.pools.length := by omega
      rw [hm, modify_concat]
      exact laid_append h (hm ▸ hg) (Pool.fits_of_create hc).bound

theorem run_group {gs : List Group} {g : Group} (h : Laid gs p.pools)
    (hg : gs[p.met]? = some g) (hroom : p.met ≤ p.pools.length) :
    (∃ f, p.run r g.tokens = (some f, p)) ∨
      ∃ q, p.run r g.tokens = (none, q) ∧ q.met = p.met + 1 ∧ q.met ≤ q.pools.length ∧
        p.pools.length ≤ q.pools.length ∧ Laid gs q.pools := by
  have hstep := step_of_isPool (r := r) (p := p) g.isPool
  cases hmeet : p.meet r g.head with
  | error f => exact .inl ⟨f, by simp [Group.tokens, run, hstep, hmeet]⟩
  | ok p₂ =>
      obtain ⟨p₁, hp₁, hp₂⟩ := exists_of_meet hmeet
      obtain ⟨hm₁, -, hlt, new, hnew⟩ := hp₁.exists_append hroom
      have hm₂ : p₂.met = p.met + 1 := by rw [hp₂]; exact congrArg (· + 1) hm₁
      have hps₂ : p₂.pools = p₁.pools.modify p.met (Pool.judged g.head) := by
        rw [hp₂, ← hm₁]
        exact pools_condition g.head p₁
      obtain ⟨q, hq, hqm, hqp⟩ := run_apart (r := r) g.apart p₂
      rw [hm₂, dressAt, hps₂, List.modify_modify_eq] at hqp
      have hlen : q.pools.length = p₁.pools.length := by simpa using congrArg List.length hqp
      refine .inr ⟨q, (run_cons_ok (hstep.trans hmeet)).trans hq, hqm.trans hm₂, ?_, ?_, ?_⟩
      · rw [hqm, hm₂, hlen]
        exact hlt
      · rw [hlen, hnew, List.length_append]
        exact Nat.le_add_right ..
      · exact laid_of_cleared hqp (laid_provided h hg hroom hp₁)

theorem laid_run (past : List Group) {rest : List Group} (h : Laid (past ++ rest) p.pools)
    (hm : p.met = past.length) (hroom : p.met ≤ p.pools.length) :
    Laid (past ++ rest) (p.run r (rest.flatMap Group.tokens)).2.pools ∧
      p.pools.length ≤ (p.run r (rest.flatMap Group.tokens)).2.pools.length ∧
      ((p.run r (rest.flatMap Group.tokens)).1 = none →
        (past ++ rest).length ≤ (p.run r (rest.flatMap Group.tokens)).2.pools.length) := by
  induction rest generalizing past p with
  | nil =>
      refine ⟨h, Nat.le_refl _, fun _ => ?_⟩
      rw [List.append_nil, ← hm]
      exact hroom
  | cons g rest ih =>
      have hg : (past ++ g :: rest)[p.met]? = some g := by simp [hm]
      rw [List.flatMap_cons, run_append]
      rcases run_group (r := r) h hg hroom with ⟨f, hf⟩ | ⟨q, hq, hqm, hqr, hle, hlaid⟩
      · rw [hf]
        exact ⟨h, Nat.le_refl _, fun hn => by cases hn⟩
      · rw [hq]
        have hsplit : past ++ g :: rest = (past ++ [g]) ++ rest := by simp
        rw [hsplit] at hlaid ⊢
        obtain ⟨hl, hlen, hfull⟩ := ih _ hlaid (by simp [hqm, hm]) hqr
        exact ⟨hl, Nat.le_trans hle hlen, hfull⟩

theorem laid_run_all {tokens : List Token} (h : Laid (Group.all tokens) p.pools)
    (hm : p.met = 0) :
    Laid (Group.all tokens) (p.run r tokens).2.pools ∧
      p.pools.length ≤ (p.run r tokens).2.pools.length ∧
      ((p.run r tokens).1 = none →
        (Group.all tokens).length ≤ (p.run r tokens).2.pools.length) := by
  have hlead (u : Token) (hu : u ∈ Group.lead tokens) := Group.isPool_of_mem_lead hu
  obtain ⟨p', hp', hm', hps⟩ := run_apart (r := r) hlead p
  rw [hm, dressAt] at hps
  have hlen : p'.pools.length = p.pools.length := by simpa using congrArg List.length hps
  have hrun : p.run r tokens = p'.run r ((Group.all tokens).flatMap Group.tokens) := by
    conv_lhs => rw [← Group.lead_append_all tokens, run_append, hp']
  rw [hrun, ← hlen]
  have hroom : p'.met ≤ p'.pools.length := by rw [hm', hm]; exact Nat.zero_le _
  exact laid_run [] (laid_of_cleared hps h) (hm'.trans hm) hroom

end Pass

namespace Tray

variable {σ : Type} {r : Roller σ} {tokens : List Token} {t : Tray} {s : σ} {k : Nat}

theorem cleared_roll (r : Roller σ) (tokens : List Token) (t : Tray) (s : σ) :
    (t.roll r tokens s).2.1.pools.map cleared =
      (Pass.run r tokens (t.start s)).2.pools.map cleared := by
  cases hrun : Pass.run r tokens (t.start s) with
  | mk stop p =>
      cases stop with
      | none => rw [(roll_of_run_ended hrun).2]; exact Pass.cleared_finish r p
      | some f => rw [(roll_of_run_stopped hrun).2]

theorem laid_roll (h : Laid (Group.all tokens) t.pools) :
    Laid (Group.all tokens) (t.roll r tokens s).2.1.pools ∧
      t.pools.length ≤ (t.roll r tokens s).2.1.pools.length ∧
      ∀ n, (t.roll r tokens s).1 = .ok n →
        (Group.all tokens).length ≤ (t.roll r tokens s).2.1.pools.length := by
  have hc := cleared_roll r tokens t s
  have hlen : (t.roll r tokens s).2.1.pools.length =
      (Pass.run r tokens (t.start s)).2.pools.length := by simpa using congrArg List.length hc
  obtain ⟨hl, hle, hfull⟩ := Pass.laid_run_all (r := r) (p := t.start s) h rfl
  rw [hlen]
  refine ⟨laid_of_cleared hc hl, hle, fun n hn => ?_⟩
  obtain ⟨p, -, -, hrun, -⟩ := exists_of_roll_ok hn
  exact hfull (congrArg Prod.fst hrun)

theorem laid_session (h : Session tokens k t) :
    Laid (Group.all tokens) t.pools ∧ (0 < k → (Group.all tokens).length ≤ t.pools.length) := by
  induction h with
  | start => exact ⟨laid_nil, fun hk => absurd hk (Nat.lt_irrefl 0)⟩
  | passed _ r s hn ih =>
      obtain ⟨hl, -, hfull⟩ := laid_roll (r := r) (s := s) ih.1
      exact ⟨hl, fun _ => hfull _ hn⟩
  | aborted _ r s _ ih =>
      obtain ⟨hl, hle, -⟩ := laid_roll (r := r) (s := s) ih.1
      exact ⟨hl, fun hk => Nat.le_trans (ih.2 hk) hle⟩
  | restored _ shown ih =>
      cases shown with
      | dice => exact ih
      | other => exact ih

theorem forall₂_bound_of_laid {gs : List Group} {ps : List Pool} (h : Laid gs ps)
    (hlen : gs.length ≤ ps.length) : List.Forall₂ Bound gs ps := by
  refine List.forall₂_iff_get.mpr ⟨Nat.le_antisymm hlen h.length_le, fun i hg hp => ?_⟩
  exact h.bound (List.getElem?_eq_getElem hg) (List.getElem?_eq_getElem hp)

def attachments (t : Tray) : List (Modifiers × List Condition) :=
  t.pools.map fun p => (p.modifiers, p.conditions)

theorem map_eq_of_forall₂_bound {gs : List Group} {ps qs : List Pool}
    (hp : List.Forall₂ Bound gs ps) (hq : List.Forall₂ Bound gs qs) :
    ps.map (fun p => (p.modifiers, p.conditions)) =
      qs.map fun p => (p.modifiers, p.conditions) := by
  induction hp generalizing qs with
  | nil =>
      cases hq
      rfl
  | cons hb _ ih =>
      cases hq with
      | cons hb' hq =>
          obtain ⟨hm, hc⟩ := hb.eq_of hb'
          simp only [List.map_cons, hm, hc, ih hq]

theorem bound_of_session (h : Session tokens k t) (hk : 0 < k) :
    List.Forall₂ Bound (Group.all tokens) t.pools ∧
      ∀ {σ : Type} (r : Roller σ) (s : σ), (t.roll r tokens s).2.1.attachments = t.attachments := by
  obtain ⟨hl, hfull⟩ := laid_session h
  have hb := forall₂_bound_of_laid hl (hfull hk)
  refine ⟨hb, fun r s => ?_⟩
  obtain ⟨hl', hle, -⟩ := laid_roll (r := r) (s := s) hl
  have hb' := forall₂_bound_of_laid hl' (Nat.le_trans (hfull hk) hle)
  exact map_eq_of_forall₂_bound hb' hb

theorem bound_of_session_later_modifier :
    let tokens : List Token :=
      [.dice "3d6", ⟨.modifier .dropLow, "dl2", "2", []⟩, ⟨.modifier .keepHigh, "kh2", "2", []⟩,
        .dice "4", .math .add, ⟨.modifier .keepLow, "kl1", "1", []⟩]
    let first := ({} : Tray).roll (Roller.replay [1, 2, 3]) tokens 0
    let shown := first.2.1.restore (.dice none "5")
    let second := shown.roll (Roller.replay [6, 5, 4]) tokens 0
    Session tokens 2 second.2.1 ∧ List.Forall₂ Bound (Group.all tokens) second.2.1.pools ∧
      second.2.1.attachments = shown.attachments ∧
      second.2.1.pools.map (fun p => p.modifiers.keepHigh.map Modifier.magnitude) =
        [some 2, none] := by
  intro tokens first shown second
  have hfirst : Session tokens 1 first.2.1 := .passed .start _ _ rfl
  have hshown : Session tokens 1 shown := .restored hfirst _
  have hsecond : Session tokens 2 second.2.1 := .passed hshown _ _ rfl
  have hbound := (bound_of_session hsecond (by decide)).1
  have hkept := (bound_of_session hshown (by decide)).2 (Roller.replay [6, 5, 4]) 0
  have hmagnitude : second.2.1.pools.map (fun p => p.modifiers.keepHigh.map Modifier.magnitude) =
      [some 2, none] := by rfl
  exact ⟨hsecond, hbound, hkept, hmagnitude⟩

end Tray

end DiceTray

import DiceTray.Proofs.Pool.Places
import DiceTray.Proofs.Tray.Failure

namespace DiceTray

namespace Pass

variable {σ : Type} (r : Roller σ)

def create? (t : Token) (s : σ) : Option (Except Fault (Pool × σ)) :=
  match t.kind with
  | .stunt => (Pool.stunt? r t.text s).map .ok
  | _ => Pool.read? r t.text t.data s

def provide? (t : Token) (p : Pass σ) : Option (Except Fault (Pass σ)) :=
  if p.met = p.pools.length then do
    match ← create? r t p.source with
    | .ok (pool, s) => some (.ok { p with pools := p.pools ++ [pool], source := s })
    | .error f => some (.error f)
  else some (.ok p)

def condition? (t : Token) (p : Pass σ) : Option (Pass σ) :=
  if t.conditions.isEmpty then some p
  else p.pools[p.met]?.map fun pool => p.keep p.met (pool.setConditions t.conditions)

def meet? (t : Token) (p : Pass σ) : Option (Except Fault (Pass σ)) := do
  match ← p.provide? r t with
  | .error f => some (.error f)
  | .ok p =>
      let p ← p.condition? t
      some (.ok { p.push (.pool p.met) with met := p.met + 1 })

def rollPool? (pool : Pool) (p : Pass σ) : Option (Pool × Pass σ) := do
  let (_, pool, s) ← pool.roll? r p.source
  some (pool, { p with source := s, stuntPoints := pool.stuntPoints? <|> p.stuntPoints })

def settle? (x : Operand) (p : Pass σ) : Option (Number × Pass σ) :=
  match x with
  | .folded pool _ => do
      let (pool, p) ← p.rollPool? r pool
      some (pool.result, p)
  | .pool index => do
      let (pool, p) ← p.rollPool? r (← p.pools[index]?)
      some (pool.result, { p with pools := p.pools.set index pool })

def combine? (op : Operator) (text : String) (p : Pass σ) : Option (Pass σ) :=
  match p.operands with
  | [] => some (p.notice (.malformed (.noOperands op)))
  | [_] => some (p.notice (.malformed (.singleOperand op)))
  | right :: left :: rest => do
      let (b, p) ← { p with operands := rest }.settle? r right
      let (a, p) ← p.settle? r left
      some (p.push (.literal (op.apply a b) text))

def step? (t : Token) (p : Pass σ) : Option (Except Fault (Pass σ)) :=
  match t.kind with
  | .dice => p.meet? r t
  | .stunt => p.meet? r t
  | .modifier word => some (.ok (p.attach word t))
  | .operator op => (p.combine? r op t.text).map .ok
  | .math =>
      match Operator.read t.data with
      | .ok op => (p.combine? r op t.text).map .ok
      | .error f => some (.ok (p.notice f))

def run? : List Token → Pass σ → Option (Option Fault × Pass σ)
  | [], p => some (none, p)
  | t :: ts, p => do
      match ← p.step? r t with
      | .ok p => run? ts p
      | .error f => some (some f, p)

def finish? (p : Pass σ) : Option (Except Fault Number × Pass σ) :=
  match p.operands with
  | [] => some (.error (.malformed .nothingToRoll), p)
  | [x] => do
      let (n, p) ← p.settle? r x
      some (.ok n, p)
  | x :: _ :: _ => do
      let (n, p) ← (p.notice (.malformed (.valuesLeft p.operands.length))).settle? r x
      some (.ok n, p)

end Pass

namespace Tray

variable {σ : Type} (r : Roller σ)

def passResult? (tokens : List Token) (p : Pass σ) : Option (Except Fault Number × Pass σ) := do
  match ← p.run? r tokens with
  | (some f, p) => some (.error f, p)
  | (none, p) => p.finish? r

def roll? (tokens : List Token) (t : Tray) (s : σ) : Option (Except Fault Number × Tray × σ) := do
  let (result, p) ← passResult? r tokens (t.start s)
  some (result, (t.left p).conclude result, p.source)

end Tray

theorem Pool.ordered_of_fixed {p : Pool} (h : ∃ n, p.content = .fixed n) : p.Ordered := by
  rcases p with ⟨source, content⟩
  obtain ⟨n, hn⟩ := h
  cases hn
  intro count faces hp
  cases hp

theorem Pool.ordered_of_blank? {u : Token} {p : Pool} (h : u.blank? = some p.blank) :
    p.Ordered := by
  intro count faces hp
  rw [← denotation_blank] at hp
  rcases Token.blank?_cases h with ⟨-, he⟩ | ⟨-, n, hn, he⟩
  · rw [he] at hp
    cases hp
    decide
  · rw [he, Notation.denotation_blank] at hp
    cases hp
    exact Notation.low_le_high_of_ofText? hn

theorem ordered_of_stocked {us : List Token} {ps : List Pool} (h : Stocked us ps) :
    ∀ p ∈ ps, p.Ordered := by
  intro p hp
  obtain ⟨i, hi⟩ := List.mem_iff_getElem?.mp hp
  have hlt := Nat.lt_of_lt_of_le (List.getElem?_eq_some_iff.mp hi).1 h.length_le
  exact Pool.ordered_of_blank? (h.blank?_eq (List.getElem?_eq_getElem hlt) hi)

theorem ordered_of_map_cleared {ps qs : List Pool}
    (h : qs.map Pool.cleared = ps.map Pool.cleared) (hp : ∀ p ∈ ps, p.Ordered) :
    ∀ q ∈ qs, q.Ordered := by
  intro q hq count faces hd
  have hmem : q.cleared ∈ ps.map Pool.cleared := h ▸ List.mem_map_of_mem hq
  obtain ⟨p, hps, he⟩ := List.mem_map.mp hmem
  rw [← Pool.denotation_cleared, ← he, Pool.denotation_cleared] at hd
  exact hp p hps count faces hd

namespace Pass

variable {σ : Type} {r : Roller σ} {t : Token} {us later : List Token} {k : Sketch} {p q : Pass σ}

theorem create?_eq (t : Token) (s : σ) : create? r t s = some (create r t s) := by
  unfold create? create
  cases t.kind with
  | stunt => exact congrArg (Option.map Except.ok) (Pool.stunt?_eq t.text s)
  | _ => exact Pool.read?_eq t.text t.data s

theorem provide?_eq (hroom : p.met ≤ p.pools.length) : p.provide? r t = some (p.provide r t) := by
  unfold provide? provide
  rcases Nat.lt_or_eq_of_le hroom with hlt | heq
  · rw [if_neg (Nat.ne_of_lt hlt), if_pos hlt]
  · rw [if_pos heq, if_neg (by omega), create?_eq]
    cases create r t p.source with
    | ok made => rfl
    | error f => rfl

theorem condition?_eq (h : p.met < p.pools.length) : p.condition? t = some (p.condition t) := by
  unfold condition? condition
  rw [List.getElem?_eq_getElem h]
  cases t.conditions with
  | nil => rfl
  | cons c cs => rfl

theorem meet?_eq (hroom : p.met ≤ p.pools.length) : p.meet? r t = some (p.meet r t) := by
  rw [meet?, provide?_eq hroom, meet]
  cases hq : p.provide r t with
  | error f => rfl
  | ok q =>
      obtain ⟨hm, -, hlt, -⟩ := (provided_of_ok hq).exists_append hroom
      simp [condition?_eq (hm ▸ hlt), Except.map]

theorem rollPool?_eq {pool : Pool} (h : pool.Ordered) (p : Pass σ) :
    p.rollPool? r pool = some (p.rollPool r pool) := by
  rw [rollPool?, Pool.roll?_eq h]
  rfl

theorem settle?_eq {e : Tree} {x : Operand} (hx : Stands p.pools e x)
    (hp : ∀ pool ∈ p.pools, pool.Ordered) : p.settle? r x = some (p.settle r x) := by
  cases hx with
  | folded fixed =>
      rw [settle?, rollPool?_eq (Pool.ordered_of_fixed fixed)]
      rfl
  | @pool i hi =>
      have hpool := List.getElem?_eq_getElem hi
      rw [settle?, hpool, settle, hpool]
      simp [rollPool?_eq (hp _ (List.getElem_mem hi))]

theorem combine?_eq (hf : Follows k p) (hp : ∀ pool ∈ p.pools, pool.Ordered) (op : Operator)
    (text : String) : p.combine? r op text = some (p.combine r op text) := by
  unfold combine? combine
  match hk : k.operands with
  | [] => 
      have ho := hf.operands
      rw [hk] at ho
      rw [List.forall₂_nil_left_iff.mp ho]
  | [e] =>
      have ho := hf.operands
      rw [hk] at ho
      obtain ⟨x, xs, -, hxs, ho⟩ := List.forall₂_cons_left_iff.mp ho
      rw [List.forall₂_nil_left_iff.mp hxs] at ho
      rw [ho]
  | right :: left :: rest =>
      obtain ⟨x, y, zs, ho, hx, hy, -, hd, -⟩ := hf.exists_operands hk
      have hy' := stands_settle (r := r) (p := { p with operands := zs }) hx hy hd
      have hp' := ordered_of_map_cleared
        (cleared_settle r x { p with operands := zs }) hp
      simp [ho, settle?_eq (p := { p with operands := zs }) hx hp, settle?_eq hy' hp']

theorem step?_eq (hf : Follows k p) (hp : ∀ pool ∈ p.pools, pool.Ordered) (t : Token) :
    p.step? r t = some (p.step r t) := by
  unfold step? step
  cases t.kind with
  | dice => exact meet?_eq hf.room
  | stunt => exact meet?_eq hf.room
  | modifier word => rfl
  | operator op => exact congrArg (Option.map Except.ok) (combine?_eq hf hp op t.text)
  | math =>
      cases Operator.read t.data with
      | ok op => exact congrArg (Option.map Except.ok) (combine?_eq hf hp op t.text)
      | error f => rfl

theorem abreast_of_step_ok (h : Abreast us (Token.poolTokens (t :: later)) p)
    (hq : p.step r t = .ok q) :
    Abreast (us ++ Token.poolTokens [t]) (Token.poolTokens later) q := by
  cases ht : t.readable with
  | true =>
      obtain ⟨q', hq', ha⟩ := abreast_step (r := r) h ht
      cases hq.symm.trans hq'
      exact ha
  | false =>
      rw [Token.poolTokens_cons_of_isPool (Token.isPool_of_not_readable ht)] at h
      have hbefore := h.stocked.before_of_blank?_eq_none (Token.blank?_eq_none ht)
      have hfirst : Abreast us [] p := ⟨h.met, h.room, by rwa [List.append_nil]⟩
      rw [step_of_not_readable hfirst ht] at hq
      cases hq

theorem run?_eq {ts : List Token} (ha : Abreast us (Token.poolTokens ts) p) (hf : Follows k p) :
    p.run? r ts = some (p.run r ts) := by
  induction ts generalizing us k p with
  | nil => rfl
  | cons t ts ih =>
      have hstep := step?_eq (r := r) hf (ordered_of_stocked ha.stocked) t
      rw [run?, hstep, run]
      cases hq : p.step r t with
      | error f => rfl
      | ok q => exact ih (abreast_of_step_ok ha hq) (follows_step hf hq)

theorem abreast_of_run_ended {ts : List Token} (ha : Abreast us (Token.poolTokens ts) p)
    (hq : p.run r ts = (none, q)) : Abreast (us ++ Token.poolTokens ts) [] q := by
  induction ts generalizing us p with
  | nil =>
      cases hq
      simpa [Token.poolTokens] using ha
  | cons t ts ih =>
      cases hs : p.step r t with
      | error f => simp [run, hs] at hq
      | ok p' =>
          rw [run_cons_ok hs] at hq
          have hrest := ih (abreast_of_step_ok ha hs) hq
          rw [List.append_assoc, ← Token.poolTokens_append] at hrest
          exact hrest

theorem finish?_eq (hf : Follows k p) (hp : ∀ pool ∈ p.pools, pool.Ordered) :
    p.finish? r = some (p.finish r) := by
  unfold finish? finish
  have ho := hf.operands
  match hx : p.operands with
  | [] => rfl
  | [x] =>
      rw [hx] at ho
      obtain ⟨e, es, he, -, -⟩ := List.forall₂_cons_right_iff.mp ho
      simp [settle?_eq he hp]
  | x :: y :: zs =>
      rw [hx] at ho
      obtain ⟨e, es, he, -, -⟩ := List.forall₂_cons_right_iff.mp ho
      have hn (f : Fault) := settle?_eq (r := r) (p := p.notice f) he hp
      simp [hn]

end Pass

namespace Tray

variable {σ : Type} {r : Roller σ} {tokens : List Token} {t : Tray} {s : σ} {k : Nat}

theorem roll?_eq (h : Stocked (Token.poolTokens tokens) t.pools) (r : Roller σ) (s : σ) :
    t.roll? r tokens s = some (t.roll r tokens s) := by
  have ha := Pass.abreast_start h s
  have hf : Pass.Follows {} (t.start s) := Pass.follows_start t s
  have hresult : passResult? r tokens (t.start s) = some (passResult r tokens (t.start s)) := by
    rw [passResult?, Pass.run?_eq ha hf, passResult]
    cases hq : (t.start s).run r tokens with
    | mk stop q =>
        cases stop with
        | some f => rfl
        | none =>
            have hq' := Pass.abreast_of_run_ended ha hq
            exact Pass.finish?_eq (Pass.follows_run hf hq) (ordered_of_stocked hq'.stocked)
  rw [roll?, hresult]
  rfl

theorem roll?_of_session (h : Session tokens k t) (r : Roller σ) (s : σ) :
    t.roll? r tokens s = some (t.roll r tokens s) ∧
      (∀ source text : String, Pool.read? r source text s = some (Pool.read r source text s)) ∧
      ∀ (ds : List Decimal.Digit) (n : Int64), Notation.word? ds = some n →
        fit? (-n.toInt) = some (-n) :=
  ⟨roll?_eq (stocked_session h) r s, fun source text => Pool.read?_eq source text s,
    fun _ _ => Notation.fit?_neg_of_word?⟩

theorem roll?_of_session_swapped_bounds :
    let tokens : List Token :=
      [.dice "4d[6,-2]", ⟨.modifier .explode, "!2", "2", []⟩, ⟨.modifier .keepHigh, "kh2", "2", []⟩,
        .stunt "s", .math .add]
    let first := ({} : Tray).roll (Roller.replay [6, -2, 6]) tokens 0
    let shown := first.2.1.restore (.dice none "5")
    Session tokens 1 shown ∧
      shown.roll? (Roller.replay [6, 6, -1]) tokens 0 =
        some (shown.roll (Roller.replay [6, 6, -1]) tokens 0) ∧
      fit? (-(12 : Int64).toInt) = some (-12) := by
  intro tokens first shown
  have hverdict : verdict? tokens = none := by decide
  have hempty : Stocked (Token.poolTokens tokens) ({} : Tray).pools := stocked_nil _
  obtain ⟨n, hn⟩ := (roll_of_verdict? hempty (Roller.replay [6, -2, 6]) 0).2 hverdict
  have hshown : Session tokens 1 shown := .restored (.passed .start _ _ hn) _
  obtain ⟨hroll, -, hword⟩ := roll?_of_session hshown (Roller.replay [6, 6, -1]) 0
  exact ⟨hshown, hroll, hword [1, 2] 12 (by decide)⟩

end Tray

end DiceTray

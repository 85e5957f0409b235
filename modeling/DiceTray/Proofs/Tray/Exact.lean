import DiceTray.Proofs.Hand.Total
import DiceTray.Proofs.Tray.Follows

namespace DiceTray

namespace Tree

inductive Exact (ps : List Pool) : Tree → Int → Prop where
  | literal {i : Nat} {p : Pool} {n : Int64} (h : ps[i]? = some p)
      (hp : p.content = .fixed (.int n)) : Exact ps (.leaf i) n.toInt
  | dice {i : Nat} {p : Pool} {d : Dice} (h : ps[i]? = some p) (hd : p.dice? = some d)
      (hfit : ∀ k, Fits (d.hand.usable.take k).sum) : Exact ps (.leaf i) d.hand.usable.sum
  | node {op : Operator} {left right : Tree} {a b v : Int} (hl : Exact ps left a)
      (hr : Exact ps right b) (hv : op.integer? a b = some v) (hfit : Fits v) :
      Exact ps (.node op left right) v

variable {ps : List Pool} {e : Tree}

theorem Exact.exists_word {v : Int} (h : Exact ps e v) : ∃ w : Int64, w.toInt = v := by
  cases h with
  | literal => exact ⟨_, rfl⟩
  | @dice i p d _ _ hfit =>
      have hall := hfit d.hand.usable.length
      rw [List.take_length] at hall
      exact ⟨_, toInt_ofInt hall⟩
  | node _ _ _ hfit => exact ⟨_, toInt_ofInt hfit⟩

theorem Exact.lt_length {v : Int} (h : Exact ps e v) : ∀ i ∈ e.leaves, i < ps.length := by
  induction h with
  | literal h _ | dice h _ _ =>
      intro j hj
      rw [List.mem_singleton.mp hj]
      exact (List.getElem?_eq_some_iff.mp h).1
  | node _ _ _ _ ihl ihr =>
      intro j hj
      exact (List.mem_append.mp hj).elim (ihl j) (ihr j)

theorem exact_leaf_iff {i : Nat} {p : Pool} (h : ps[i]? = some p) {v : Int64} :
    Exact ps (.leaf i) v.toInt ↔ p.result = .int v := by
  constructor
  · intro he
    generalize hm : v.toInt = m at he
    cases he with
    | literal h' hp =>
        cases h.symm.trans h'
        rw [Pool.result, hp, Int64.toInt_inj.mp hm]
    | dice h' hd hfit =>
        cases h.symm.trans h'
        rw [Pool.result_of_dice hd]
        exact (Hand.result_eq_int_iff _).mpr ⟨hfit, hm⟩
  · intro hv
    cases hd : p.dice? with
    | some d =>
        rw [Pool.result_of_dice hd] at hv
        obtain ⟨hfit, hsum⟩ := (Hand.result_eq_int_iff d.hand).mp hv
        rw [hsum]
        exact .dice h hd hfit
    | none =>
        rcases p with ⟨source, value | d | d⟩
        · exact .literal h (congrArg Content.fixed hv)
        · cases hd
        · cases hd

theorem exact_iff {n : Number} (h : e.value? (reading ps) = some n) (v : Int64) :
    Exact ps e v.toInt ↔ n = .int v := by
  induction e generalizing n v with
  | leaf i =>
      obtain ⟨p, hp, rfl⟩ := Option.map_eq_some_iff.mp h
      exact exact_leaf_iff hp
  | node op left right ihl ihr =>
      obtain ⟨x, hx, h⟩ := Option.bind_eq_some_iff.mp h
      obtain ⟨y, hy, rfl⟩ := Option.map_eq_some_iff.mp h
      constructor
      · intro he
        generalize hm : v.toInt = m at he
        cases he with
        | node hl hr hv hfit =>
            obtain ⟨a, rfl⟩ := hl.exists_word
            obtain ⟨b, rfl⟩ := hr.exists_word
            rw [(ihl hx a).mp hl, (ihr hy b).mp hr, Operator.apply_int_eq_int_iff, hv, hm]
      · intro hv
        obtain ⟨a, b, rfl, rfl⟩ := Operator.exists_int_of_apply hv
        exact .node ((ihl hx a).mpr rfl) ((ihr hy b).mpr rfl)
          (Operator.apply_int_eq_int_iff.mp hv) (fits_toInt v)

end Tree

namespace Sketch

def TopFrom (first : Nat) (k : Sketch) : Prop :=
  first ≤ k.met ∧ ∃ e rest, k.operands = e :: rest ∧ ∃ i ∈ e.leaves, first ≤ i

theorem topFrom_step {first : Nat} {k : Sketch} (h : k.TopFrom first) (t : Token) :
    (k.step t).TopFrom first := by
  obtain ⟨hm, e, rest, hk, i, hi, hle⟩ := h
  cases t.role with
  | pool ht =>
      rw [step_of_isPool ht]
      exact ⟨Nat.le_succ_of_le hm, _, _, rfl, k.met, by simp [Tree.leaves], hm⟩
  | modifier word ht => rw [step_of_modifier ht]; exact ⟨hm, e, rest, hk, i, hi, hle⟩
  | unknown f ht => rw [step_of_unknown ht]; exact ⟨hm, e, rest, hk, i, hi, hle⟩
  | operator op ht =>
      cases rest with
      | nil =>
          rw [step_of_length_lt (Token.isPool_of_operator ht) (by simp [hk])]
          exact ⟨hm, e, [], hk, i, hi, hle⟩
      | cons left rest =>
          rw [step_of_operator ht hk]
          exact ⟨hm, _, _, rfl, i, List.mem_append_right _ hi, hle⟩

theorem topFrom_run {first : Nat} {k : Sketch} (h : k.TopFrom first) (ts : List Token) :
    (k.run ts).TopFrom first := by
  induction ts generalizing k with
  | nil => exact h
  | cons t ts ih => exact ih (topFrom_step h t)

def top? (tokens : List Token) : Option Tree := (ofTokens tokens).operands.head?

end Sketch

namespace Pass

variable {σ : Type} {r : Roller σ} {t : Token} {p q : Pass σ} {f : Fault}

theorem isPool_of_step_error (h : p.step r t = .error f) :
    t.kind.isPool = true ∧ p.pools.length ≤ p.met := by
  cases t.role with
  | pool ht =>
      refine ⟨ht, ?_⟩
      rw [step_of_isPool ht, meet, provide] at h
      by_contra hlt
      rw [if_pos (by omega)] at h
      cases h
  | modifier word ht => rw [step_of_modifier ht] at h; cases h
  | unknown g ht => rw [step_of_unknown ht] at h; cases h
  | operator op ht => rw [step_of_operator ht] at h; cases h

theorem exists_of_run_stopped {ts : List Token} (h : p.run r ts = (some f, q)) :
    ∃ before t after, ts = before ++ t :: after ∧ p.run r before = (none, q) ∧
      q.step r t = .error f := by
  induction ts generalizing p with
  | nil => cases h
  | cons t ts ih =>
      cases hs : p.step r t with
      | error g =>
          simp only [run, hs, Prod.mk.injEq, Option.some.injEq] at h
          obtain ⟨rfl, rfl⟩ := h
          exact ⟨[], t, ts, rfl, rfl, hs⟩
      | ok p' =>
          rw [run_cons_ok hs] at h
          obtain ⟨before, u, after, rfl, hrun, hstep⟩ := ih h
          exact ⟨t :: before, u, after, rfl, (run_cons_ok hs).trans hrun, hstep⟩

theorem exists_leaf_of_run_stopped {k : Sketch} {ts : List Token} (h : Follows k p)
    (hq : p.run r ts = (some f, q)) :
    ∃ e rest, (k.run ts).operands = e :: rest ∧ ∃ i ∈ e.leaves, q.pools.length ≤ i := by
  obtain ⟨before, t, after, rfl, hrun, hstep⟩ := exists_of_run_stopped hq
  obtain ⟨ht, hlen⟩ := isPool_of_step_error hstep
  rw [(follows_run h hrun).met] at hlen
  have htop : ((k.run before).step t).TopFrom q.pools.length := by
    rw [Sketch.step_of_isPool ht]
    exact ⟨Nat.le_succ_of_le hlen, _, _, rfl, _, by simp [Tree.leaves], hlen⟩
  have hrest := Sketch.topFrom_run htop after
  rw [Sketch.run_append]
  exact hrest.2

end Pass

namespace Tray

variable {σ : Type} {r : Roller σ} {tokens : List Token} {t : Tray} {s : σ}

theorem exists_top_of_roll_ok {n : Number} (h : (t.roll r tokens s).1 = .ok n) :
    ∃ e, Sketch.top? tokens = some e ∧
      e.value? (reading (t.roll r tokens s).2.1.pools) = some n := by
  obtain ⟨p, x, rest, hrun, hx, hn, hpools, -⟩ := exists_of_roll_ok h
  have hops := (Pass.follows_run (Pass.follows_start t s) hrun).operands
  rw [hx] at hops
  obtain ⟨e, es, hex, -, hke⟩ := List.forall₂_cons_right_iff.mp hops
  rw [← (Pass.closed_frame p).1] at hex
  refine ⟨e, by rw [Sketch.top?, Sketch.ofTokens, hke, List.head?_cons], ?_⟩
  rw [hpools, hn]
  exact (Pass.settle_stands hex).1

theorem not_exact_of_roll_error {f : Fault} (h : (t.roll r tokens s).1 = .error f) {e : Tree}
    (he : Sketch.top? tokens = some e) (v : Int) : ¬ e.Exact (t.roll r tokens s).2.1.pools v := by
  intro hv
  obtain ⟨rest, hk⟩ := List.head?_eq_some_iff.mp he
  cases hrun : Pass.run r tokens (t.start s) with
  | mk stop q =>
      cases stop with
      | some g =>
          obtain ⟨e', rest', hk', i, hi, hle⟩ :=
            Pass.exists_leaf_of_run_stopped (Pass.follows_start t s) hrun
          cases hk.symm.trans hk'
          rw [(roll_of_run_stopped hrun).2] at hv
          exact Nat.not_lt.mpr hle (hv.lt_length i hi)
      | none =>
          have hops := (Pass.follows_run (Pass.follows_start t s) hrun).operands
          rw [show (Sketch.run {} tokens).operands = e :: rest from hk] at hops
          obtain ⟨x, xs, -, -, hx⟩ := List.forall₂_cons_left_iff.mp hops
          rw [(roll_of_run_ended hrun).1, Pass.finish_of_operands hx] at h
          cases h

theorem roll_eq_int_iff (r : Roller σ) (tokens : List Token) (t : Tray) (s : σ) :
    let after := t.roll r tokens s
    (∀ v, after.1 = .ok (.int v) ↔
        ∃ e, Sketch.top? tokens = some e ∧ e.Exact after.2.1.pools v.toInt) ∧
      ((∃ x, after.1 = .ok (.real x)) ↔
        (∃ n, after.1 = .ok n) ∧
          ¬ ∃ e v, Sketch.top? tokens = some e ∧ e.Exact after.2.1.pools v) := by
  intro after
  have hint : ∀ v, after.1 = .ok (.int v) ↔
      ∃ e, Sketch.top? tokens = some e ∧ e.Exact after.2.1.pools v.toInt := by
    intro v
    constructor
    · intro hv
      obtain ⟨e, he, hvalue⟩ := exists_top_of_roll_ok hv
      exact ⟨e, he, (Tree.exact_iff hvalue v).mpr rfl⟩
    · rintro ⟨e, he, hexact⟩
      cases hn : after.1 with
      | error f => exact absurd hexact (not_exact_of_roll_error hn he _)
      | ok n =>
          obtain ⟨e', he', hvalue⟩ := exists_top_of_roll_ok hn
          cases he.symm.trans he'
          rw [(Tree.exact_iff hvalue v).mp hexact]
  refine ⟨hint, ?_⟩
  constructor
  · rintro ⟨x, hx⟩
    refine ⟨⟨_, hx⟩, ?_⟩
    rintro ⟨e, v, he, hexact⟩
    obtain ⟨w, rfl⟩ := hexact.exists_word
    have hw := (hint w).mpr ⟨e, he, hexact⟩
    rw [hx] at hw
    cases hw
  · rintro ⟨⟨n, hn⟩, hnot⟩
    cases n with
    | real x => exact ⟨x, hn⟩
    | int v =>
        obtain ⟨e, he, hexact⟩ := (hint v).mp hn
        exact absurd ⟨e, v.toInt, he, hexact⟩ hnot

end Tray

end DiceTray

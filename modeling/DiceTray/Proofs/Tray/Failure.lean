import DiceTray.Proofs.Tray.Follows
import DiceTray.Proofs.Tray.Stocked
import DiceTray.Table

namespace DiceTray

namespace Sketch

theorem operands_step_eq_nil {k : Sketch} {t : Token} :
    (k.step t).operands = [] ↔ k.operands = [] ∧ t.kind.isPool = false := by
  cases t.role with
  | pool ht => simp [step_of_isPool ht, ht]
  | modifier word ht => simp [step_of_modifier ht, Token.isPool_of_modifier ht]
  | unknown f ht => simp [step_of_unknown ht, Token.isPool_of_operator ht]
  | operator op ht =>
      have hp := Token.isPool_of_operator ht
      match hk : k.operands with
      | right :: left :: rest => simp [step_of_operator ht hk]
      | [] | [_] => rw [step_of_length_lt hp (by simp [hk])]; simp [hk, hp]

theorem operands_run_eq_nil {k : Sketch} {ts : List Token} :
    (k.run ts).operands = [] ↔ k.operands = [] ∧ Token.poolTokens ts = [] := by
  induction ts generalizing k with
  | nil => simp [run, Token.poolTokens]
  | cons t ts ih =>
      have hstep := ih (k := k.step t)
      rw [operands_step_eq_nil] at hstep
      refine hstep.trans ?_
      cases ht : t.kind.isPool with
      | true => simp [Token.poolTokens_cons_of_isPool ht]
      | false => simp [Token.poolTokens_cons_of_not_isPool ht]

end Sketch

namespace Tray

variable {σ : Type} {r : Roller σ} {tokens : List Token} {t : Tray} {s : σ} {k : Nat}

theorem result_of_roll_ok {n : Number} (h : (t.roll r tokens s).1 = .ok n) :
    (t.roll r tokens s).2.1.result = some n := by
  obtain ⟨p, hp⟩ := exists_left_of_roll r tokens t s
  rw [hp, h]
  rfl

theorem result_of_roll_error {f : Fault} (h : (t.roll r tokens s).1 = .error f) :
    (t.roll r tokens s).2.1.result = none := by
  obtain ⟨p, hp⟩ := exists_left_of_roll r tokens t s
  rw [hp, h]
  rfl

theorem roll_of_unreadable {before after : List Token} {u : Token}
    (h : Stocked (Token.poolTokens (before ++ u :: after)) t.pools)
    (hbefore : ∀ v ∈ before, v.readable = true) (hu : u.readable = false) (r : Roller σ) (s : σ) :
    let rolled := t.roll r (before ++ u :: after) s
    rolled.1 = .error (.invalidNotation u.data) ∧
      (rolled.2.1.pools.map fun p => some p.blank) =
        (Token.poolTokens before).map Token.blank? := by
  intro rolled
  rw [Token.poolTokens_append,
    Token.poolTokens_cons_of_isPool (Token.isPool_of_not_readable hu)] at h
  have hfirst := h.before_of_blank?_eq_none (Token.blank?_eq_none hu)
  obtain ⟨q, hq, ha⟩ := Pass.abreast_run (r := r) (Pass.abreast_start hfirst s) hbefore
  have hrun : Pass.run r (before ++ u :: after) (t.start s) =
      (some (.invalidNotation u.data), q) := by
    rw [Pass.run_append, hq]
    simp only [Pass.run, Pass.step_of_not_readable ha hu]
  obtain ⟨hresult, hpools⟩ := roll_of_run_stopped hrun
  exact ⟨hresult, by rw [hpools]; exact ha.map_blank⟩

theorem roll_of_readable (h : Stocked (Token.poolTokens tokens) t.pools)
    (htokens : ∀ v ∈ tokens, v.readable = true) (r : Roller σ) (s : σ) :
    let rolled := t.roll r tokens s
    (rolled.2.1.pools.map fun p => some p.blank) = (Token.poolTokens tokens).map Token.blank? ∧
      (Token.poolTokens tokens = [] → rolled.1 = .error (.malformed .nothingToRoll)) ∧
      (Token.poolTokens tokens ≠ [] → ∃ n, rolled.1 = .ok n) := by
  intro rolled
  obtain ⟨q, hq, ha⟩ := Pass.abreast_run (r := r) (Pass.abreast_start h s) htokens
  obtain ⟨hresult, hpools⟩ := roll_of_run_ended hq
  have hoperands : q.operands = [] ↔ Token.poolTokens tokens = [] := by
    have hf := (Pass.follows_run (Pass.follows_start t s) hq).operands
    have hnil : q.operands = [] ↔ (Sketch.run {} tokens).operands = [] := by
      rw [← List.length_eq_zero_iff, ← hf.length_eq, List.length_eq_zero_iff]
    rw [hnil, Sketch.operands_run_eq_nil]
    simp
  refine ⟨?_, fun hnone => ?_, fun hsome => ?_⟩
  · rw [hpools]
    have hblank : (q.finish r).2.pools.map Pool.blank = q.pools.map Pool.blank :=
      map_blank_of_map_cleared (Pass.cleared_finish r q)
    have hmap := congrArg (List.map some) hblank
    rw [List.map_map, List.map_map] at hmap
    exact hmap.trans ha.map_blank
  · rw [hresult, Pass.finish, hoperands.mpr hnone]
  · obtain ⟨x, rest, hx⟩ := List.exists_cons_of_ne_nil fun hn => hsome (hoperands.mp hn)
    exact ⟨_, hresult.trans (congrArg Prod.fst (Pass.finish_of_operands hx))⟩

theorem exists_of_find?_unreadable {u : Token}
    (h : (tokens.find? fun v => !v.readable) = some u) :
    ∃ after, tokens = tokens.takeWhile Token.readable ++ u :: after ∧ u.readable = false := by
  obtain ⟨hu, before, after, rfl, hbefore⟩ := List.find?_eq_some_iff_append.mp h
  have hread : ∀ v ∈ before, v.readable = true := fun v hv => by simpa using hbefore v hv
  have hu : u.readable = false := by simpa using hu
  refine ⟨after, ?_, hu⟩
  rw [List.takeWhile_append_of_pos hread, List.takeWhile_cons_of_neg (by simp [hu]),
    List.append_nil]

theorem takeWhile_readable_of_find?_eq_none
    (h : (tokens.find? fun v => !v.readable) = none) :
    (∀ v ∈ tokens, v.readable = true) ∧ tokens.takeWhile Token.readable = tokens := by
  have hread : ∀ v ∈ tokens, v.readable = true := fun v hv => by
    simpa using List.find?_eq_none.mp h v hv
  exact ⟨hread, List.takeWhile_eq_self_iff.mpr hread⟩

theorem blank_roll (h : Stocked (Token.poolTokens tokens) t.pools) (r : Roller σ) (s : σ) :
    ((t.roll r tokens s).2.1.pools.map fun p => some p.blank) =
      (Token.poolTokens (tokens.takeWhile Token.readable)).map Token.blank? := by
  cases hfind : tokens.find? fun v => !v.readable with
  | none =>
      obtain ⟨hread, hall⟩ := takeWhile_readable_of_find?_eq_none hfind
      rw [hall]
      exact (roll_of_readable h hread r s).1
  | some u =>
      obtain ⟨after, htokens, hu⟩ := exists_of_find?_unreadable hfind
      have hbefore : ∀ v ∈ tokens.takeWhile Token.readable, v.readable = true :=
        fun v hv => List.mem_takeWhile_imp hv
      rw [htokens] at h
      have hrolled := (roll_of_unreadable h hbefore hu r s).2
      rw [← htokens] at hrolled
      exact hrolled

theorem stocked_roll (h : Stocked (Token.poolTokens tokens) t.pools) (r : Roller σ) (s : σ) :
    Stocked (Token.poolTokens tokens) (t.roll r tokens s).2.1.pools := by
  have hsplit := Token.poolTokens_append (tokens.takeWhile Token.readable)
    (tokens.dropWhile Token.readable)
  rw [List.takeWhile_append_dropWhile] at hsplit
  rw [hsplit]
  exact stocked_of_map_eq (blank_roll h r s) _

theorem stocked_session (h : Session tokens k t) : Stocked (Token.poolTokens tokens) t.pools := by
  induction h with
  | start => exact stocked_nil _
  | passed _ r s _ ih => exact stocked_roll ih r s
  | aborted _ r s _ ih => exact stocked_roll ih r s
  | restored _ shown ih =>
      cases shown with
      | dice => exact ih
      | other => exact ih

def verdict? (tokens : List Token) : Option Fault :=
  match tokens.find? fun u => !u.readable with
  | some u => some (.invalidNotation u.data)
  | none => if Token.poolTokens tokens = [] then some (.malformed .nothingToRoll) else none

theorem roll_of_verdict? (h : Stocked (Token.poolTokens tokens) t.pools) (r : Roller σ) (s : σ) :
    (∀ f, verdict? tokens = some f → (t.roll r tokens s).1 = .error f) ∧
      (verdict? tokens = none → ∃ n, (t.roll r tokens s).1 = .ok n) := by
  unfold verdict?
  cases hfind : tokens.find? fun v => !v.readable with
  | none =>
      obtain ⟨hread, -⟩ := takeWhile_readable_of_find?_eq_none hfind
      obtain ⟨-, hnone, hsome⟩ := roll_of_readable h hread r s
      constructor
      · intro f hf
        obtain ⟨hempty, rfl⟩ := by simpa using hf
        exact hnone hempty
      · intro hf
        exact hsome (by simpa using hf)
  | some u =>
      obtain ⟨after, htokens, hu⟩ := exists_of_find?_unreadable hfind
      have hbefore : ∀ v ∈ tokens.takeWhile Token.readable, v.readable = true :=
        fun v hv => List.mem_takeWhile_imp hv
      constructor
      · intro f hf
        cases hf
        rw [htokens] at h
        have hrolled := (roll_of_unreadable h hbefore hu r s).1
        rw [← htokens] at hrolled
        exact hrolled
      · intro hf
        cases hf

theorem readable_of_roll_ok (h : Stocked (Token.poolTokens tokens) t.pools) {n : Number}
    (hn : (t.roll r tokens s).1 = .ok n) : ∀ u ∈ tokens, u.readable = true := by
  cases hfind : tokens.find? fun u => !u.readable with
  | none => exact (takeWhile_readable_of_find?_eq_none hfind).1
  | some u =>
      have hv : verdict? tokens = some (.invalidNotation u.data) := by rw [verdict?, hfind]
      have hf := (roll_of_verdict? h r s).1 _ hv
      cases hn.symm.trans hf

theorem length_pools_of_roll_ok (h : Stocked (Token.poolTokens tokens) t.pools) {n : Number}
    (hn : (t.roll r tokens s).1 = .ok n) :
    (t.roll r tokens s).2.1.pools.length = (Token.poolTokens tokens).length := by
  have hmap := (roll_of_readable h (readable_of_roll_ok h hn) r s).1
  simpa using congrArg List.length hmap

theorem roll_error_iff (h : Session tokens k t) (r : Roller σ) (s : σ) {f : Fault} :
    (t.roll r tokens s).1 = .error f ↔ verdict? tokens = some f := by
  obtain ⟨hfails, hsucceeds⟩ := roll_of_verdict? (stocked_session h) r s
  refine ⟨fun hf => ?_, hfails f⟩
  cases hv : verdict? tokens with
  | some g => rw [hfails g hv, Except.error.injEq] at hf; rw [hf]
  | none =>
      obtain ⟨n, hn⟩ := hsucceeds hv
      rw [hn] at hf
      cases hf

theorem error_of_session (h : Session tokens k t) (r : Roller σ) (s : σ) :
    let after := t.roll r tokens s
    (∀ f, after.1 = .error f ↔ verdict? tokens = some f) ∧
      (∀ expression, Table.roll r ⟨expression, tokens, t⟩ s =
        (after.1, ⟨expression, tokens, after.2.1⟩, after.2.2)) ∧
      ∀ f, after.1 = .error f →
        after.2.1.result = none ∧
        (∀ options expression, after.2.1.display? options expression = none) ∧
        (after.2.1.pools.map fun p => some p.blank) =
          (Token.poolTokens (tokens.takeWhile Token.readable)).map Token.blank? ∧
        Session tokens k after.2.1 ∧
        ∀ {j : Nat} {later : Tray} (_ : Session tokens j later) {τ : Type} (q : Roller τ) (u : τ),
          (later.roll q tokens u).1 = .error f := by
  intro after
  refine ⟨fun f => roll_error_iff h r s, fun expression => Table.roll_eq r _ s, fun f hf => ?_⟩
  have hresult : after.2.1.result = none := result_of_roll_error hf
  refine ⟨hresult, fun options expression => ?_, blank_roll (stocked_session h) r s,
    .aborted h r s hf, fun hlater τ q u => ?_⟩
  · rw [display?, hresult]
    rfl
  · exact (roll_error_iff hlater q u).mpr ((roll_error_iff h r s).mp hf)

theorem error_of_session_shown_before :
    let tokens : List Token :=
      [.dice "1", .stunt "3d6", ⟨.modifier .keepHigh, "kh1", "1", []⟩, .math .add, .dice "2x6",
        .dice "4d6"]
    let shown := ({} : Tray).restore (.dice (some (.int 7)) "7")
    let after := shown.roll (Roller.replay [1, 2, 3]) tokens 0
    let again := (after.2.1.restore (.dice (some (.int 8)) "8")).roll (Roller.replay [4]) tokens 0
    after.1 = .error (.invalidNotation "2x6") ∧ after.2.1.result = none ∧
      (after.2.1.pools.map fun p => some p.blank) =
        (Token.poolTokens (tokens.takeWhile Token.readable)).map Token.blank? ∧
      after.2.1.pools.map Pool.source = ["1", "3d6"] ∧
      (Table.roll (Roller.replay [1, 2, 3]) ⟨"1kh1 3d6 2x6", tokens, shown⟩ 0).2.1.tokens = tokens ∧
      again.1 = .error (.invalidNotation "2x6") := by
  intro tokens shown after again
  have hshown : Session tokens 0 shown := .restored .start _
  obtain ⟨hiff, htable, hclean⟩ := error_of_session hshown (Roller.replay [1, 2, 3]) 0
  have hf : after.1 = .error (.invalidNotation "2x6") := (hiff _).mpr rfl
  obtain ⟨hresult, -, hpools, hsession, hlater⟩ := hclean _ hf
  have hsources : after.2.1.pools.map Pool.source = ["1", "3d6"] := by rfl
  refine ⟨hf, hresult, hpools, hsources, ?_, hlater (.restored hsession _) _ _⟩
  rw [htable]

end Tray

end DiceTray

import DiceTray.Proofs.Tray.Table

namespace DiceTray

namespace Tray

section

variable {σ : Type} {r : Roller σ} {tokens : List Token} {t : Tray} {s : σ} {k : Nat}

theorem restored_of_roll_ok {n : Number} (hn : (t.roll r tokens s).1 = .ok n) :
    (t.roll r tokens s).2.1.restored = none := by
  obtain ⟨p, hp⟩ := exists_left_of_roll r tokens t s
  rw [hp, hn]
  rfl

theorem restored_of_roll_error {f : Fault} (hf : (t.roll r tokens s).1 = .error f) :
    (t.roll r tokens s).2.1.restored = t.restored := by
  obtain ⟨p, hp⟩ := exists_left_of_roll r tokens t s
  rw [hp, hf]
  rfl

theorem restored_ne_empty (h : Session tokens k t) : t.restored ≠ some "" := by
  induction h with
  | start => exact nofun
  | passed _ r s hn _ =>
      rw [restored_of_roll_ok hn]
      exact nofun
  | aborted _ r s hf ih =>
      rw [restored_of_roll_error hf]
      exact ih
  | @restored _ t _ shown ih =>
      cases shown with
      | other => exact ih
      | dice result tooltip =>
          change (if tooltip = "" then t.restored else some tooltip) ≠ some ""
          split
          case isTrue => exact ih
          case isFalse hne => exact fun he => hne (Option.some.inj he)

theorem tooltip_ne_empty (h : Session tokens k t) (expression : String) :
    t.tooltip expression ≠ "" := by
  unfold tooltip
  split
  case h_1 text hr => exact fun he => restored_ne_empty h (he ▸ hr)
  case h_2 =>
    intro he
    have hchars := congrArg String.toList he
    simp at hchars

end

theorem snapshot_of_result {t : Tray} {n : Number} (h : t.result = some n) (expression : String) :
    t.snapshot expression = .dice (some n) (t.tooltip expression) := by
  rw [snapshot, h]

theorem restore_dice {tooltip : String} (h : tooltip ≠ "") (n : Number) (t : Tray) :
    t.restore (.dice (some n) tooltip) =
      { t with result := some n, restored := some tooltip } := by
  rw [restore, if_neg h]
  rfl

end Tray

namespace Table

theorem session_run (expression : String) (tokens : List Token) (calls : List Call) :
    ∃ k, Session tokens k (run { expression, tokens } calls).tray :=
  (served_run served_start calls).1.session

theorem call_restoreText_of_ok {json : String} {shown : Snapshot}
    (h : Snapshot.read json = .ok shown) (b : Table) :
    b.call (.restoreText json) = b.restore shown := by
  simp only [call, h]

theorem call_restoreText_of_error {json : String} {f : Fault} (h : Snapshot.read json = .error f)
    (b : Table) : b.call (.restoreText json) = b := by
  rw [call, h]

theorem call_restoreText_of_ne_dice {json : String}
    (h : ∀ result tooltip, Snapshot.read json ≠ .ok (.dice result tooltip)) (b : Table) :
    b.call (.restoreText json) = b := by
  cases hread : Snapshot.read json with
  | error f => exact call_restoreText_of_error hread b
  | ok shown =>
      cases shown with
      | dice result tooltip => exact absurd hread (h result tooltip)
      | other => exact call_restoreText_of_ok hread b

theorem shown_of_restore (expression expression' : String) (tokens tokens' : List Token)
    (calls calls' : List Call) {n : Number}
    (hn : (run { expression, tokens } calls).tray.result = some n) :
    let x := run { expression, tokens } calls
    let y := run ⟨expression', tokens', {}⟩ calls'
    let shown := x.tray.snapshot x.expression
    let z := y.call (.restore shown)
    z.tray.result = some n ∧ z.tray.tooltip z.expression = x.tray.tooltip x.expression ∧
      z.tray.snapshot z.expression = shown ∧
      z.expression = y.expression ∧ z.tokens = y.tokens ∧ z.tray.pools = y.tray.pools ∧
      z.tray.notices = y.tray.notices ∧ z.tray.stuntPoints = y.tray.stuntPoints ∧
      y.call (.restore .other) = y ∧
      ∀ json, (∀ result tooltip, Snapshot.read json ≠ .ok (.dice result tooltip)) →
        y.call (.restoreText json) = y := by
  intro x y shown z
  obtain ⟨k, hx⟩ := session_run expression tokens calls
  have hshown : shown = .dice (some n) (x.tray.tooltip x.expression) :=
    Tray.snapshot_of_result hn _
  have hz : z.tray = { y.tray with
      result := some n, restored := some (x.tray.tooltip x.expression) } := by
    change y.tray.restore shown = _
    rw [hshown, Tray.restore_dice (Tray.tooltip_ne_empty hx _)]
  have htooltip : z.tray.tooltip z.expression = x.tray.tooltip x.expression := by rw [hz]; rfl
  refine ⟨by rw [hz], htooltip, ?_, rfl, rfl, by rw [hz], by rw [hz], by rw [hz], rfl,
    fun json hj => call_restoreText_of_ne_dice hj y⟩
  rw [hshown, ← htooltip, Tray.snapshot, hz]

theorem shown_of_restore_nan :
    let zeros : List Token := [.dice "0", .dice "0", .math .div]
    let x := run { expression := "0 / 0", tokens := zeros } [.roll (Roller.replay []) 0]
    let y := run { expression := "d6", tokens := [.dice "d6"] } [.roll (Roller.replay [4]) 0]
    let z := y.call (.restore (x.tray.snapshot x.expression))
    z.tray.result = x.tray.result ∧ z.tray.tooltip "d6" = "0 / 0\n0 / 0" ∧
      z.tray.pools.map Pool.chars = [['[', '4', ']']] := by
  intro zeros x y z
  have hx : x.tray.result = some (.real (0.0 / 0.0)) := by rfl
  obtain ⟨hresult, htooltip, -, -, -, hpools, -⟩ :=
    shown_of_restore "0 / 0" "d6" zeros [.dice "d6"] [.roll (Roller.replay []) 0]
      [.roll (Roller.replay [4]) 0] hx
  refine ⟨hresult.trans hx.symm, htooltip.trans (by decide), ?_⟩
  rw [show z.tray.pools = y.tray.pools from hpools]
  decide

end Table

end DiceTray

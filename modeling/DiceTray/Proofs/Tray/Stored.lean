import DiceTray.Proofs.Snapshot.Reading
import DiceTray.Proofs.Tray.Restored

namespace DiceTray

open Decimal

namespace Tray

theorem restore_dice_none {tooltip : String} (h : tooltip ≠ "") (t : Tray) :
    t.restore (.dice none tooltip) = { t with restored := some tooltip } := by
  rw [restore, if_neg h]
  rfl

end Tray

namespace Table

theorem call_restoreText_frame (json : String) (b : Table) :
    (b.call (.restoreText json)).expression = b.expression ∧
      (b.call (.restoreText json)).tokens = b.tokens ∧
      (b.call (.restoreText json)).tray.pools = b.tray.pools := by
  cases hread : Snapshot.read json with
  | error f =>
      rw [call_restoreText_of_error hread]
      exact ⟨rfl, rfl, rfl⟩
  | ok shown =>
      rw [call_restoreText_of_ok hread]
      cases shown <;> exact ⟨rfl, rfl, rfl⟩

/-- The outcome of `x` is shown by `y` when it was written and is read there, if its result has a
numeral that is read as that result. A result that is not finite has none, and `y` then shows its
own result below the tooltip of `x`. -/
theorem shown_of_restoreText (expression expression' : String) (tokens tokens' : List Token)
    (calls calls' : List Call) {n : Number}
    (hn : (run { expression, tokens } calls).tray.result = some n) :
    let x := run { expression, tokens } calls
    let y := run ⟨expression', tokens', {}⟩ calls'
    let shown := x.tray.snapshot x.expression
    let z := y.call (.restoreText shown.text)
    (Snapshot.read shown.text = .ok shown ↔ n.Storable) ∧
      (n.Storable → z.tray.result = some n ∧
        z.tray.tooltip z.expression = x.tray.tooltip x.expression) ∧
      (∀ v : Float, n = .real v → v.isFinite = false → z.tray.result = y.tray.result ∧
        z.tray.tooltip z.expression = x.tray.tooltip x.expression) ∧
      z.expression = y.expression ∧ z.tokens = y.tokens ∧ z.tray.pools = y.tray.pools := by
  intro x y shown z
  obtain ⟨k, hx⟩ := session_run expression tokens calls
  have htooltip := Tray.tooltip_ne_empty hx x.expression
  have hshown : shown = .dice (some n) (x.tray.tooltip x.expression) :=
    Tray.snapshot_of_result hn _
  have hiff := Snapshot.read_dice_text_eq_iff n (x.tray.tooltip x.expression)
  rw [← hshown] at hiff
  have hz : z = y.call (.restoreText shown.text) := rfl
  clear_value z
  refine ⟨hiff, fun hs => ?_, fun v hv hfinite => ?_, ?_⟩
  · rw [hz, call_restoreText_of_ok (hiff.mpr hs), hshown, restore, Tray.restore_dice htooltip]
    exact ⟨rfl, rfl⟩
  · subst hv
    have hread := Snapshot.read_dice_text_not_finite (Bool.eq_false_iff.mp hfinite)
      (x.tray.tooltip x.expression)
    rw [← hshown] at hread
    rw [hz, call_restoreText_of_ok hread, restore, Tray.restore_dice_none htooltip]
    exact ⟨rfl, rfl⟩
  · rw [hz]
    exact call_restoreText_frame shown.text y

theorem shown_of_restoreText_quotient :
    let x := run { expression := "7 / 2", tokens := [.dice "7", .dice "2", .math .div] }
      [.roll (Roller.replay []) 0]
    let y := run { expression := "d6", tokens := [.dice "d6"] } [.roll (Roller.replay [4]) 0]
    let z := y.call (.restoreText (x.tray.snapshot x.expression).text)
    z.tray.result = some (.real 3.5) ∧
      z.tray.tooltip z.expression = x.tray.tooltip x.expression := by
  have hquotient : toDouble 7 / toDouble 2 = 3.5 := by decide +kernel
  have hstorable : (Number.real 3.5).Storable := ⟨by decide +kernel, by decide +kernel⟩
  refine (shown_of_restoreText "7 / 2" "d6" [.dice "7", .dice "2", .math .div] [.dice "d6"]
    [.roll (Roller.replay []) 0] [.roll (Roller.replay [4]) 0] ?_).2.1 hstorable
  rw [← hquotient]
  rfl

theorem result_of_restoreText_infinite :
    let zeros : List Token := [.dice "1", .dice "0", .math .div]
    let x := run { expression := "1 / 0", tokens := zeros } [.roll (Roller.replay []) 0]
    let y := run { expression := "d6", tokens := [.dice "d6"] } [.roll (Roller.replay [4]) 0]
    let z := y.call (.restoreText (x.tray.snapshot x.expression).text)
    x.tray.result = some (.real infinity) ∧ z.tray.result = some (.int 4) ∧
      z.tray.tooltip "d6" = "1 / 0\n1 / 0" := by
  intro zeros x y z
  have hquotient : toDouble 1 / toDouble 0 = infinity := by decide +kernel
  have hx : x.tray.result = some (.real infinity) := by
    rw [← hquotient]
    rfl
  have htooltip : x.tray.tooltip x.expression = "1 / 0\n1 / 0" := by decide
  have hread := Snapshot.read_dice_text_not_finite (by decide +kernel : ¬ infinity.isFinite = true)
    (x.tray.tooltip x.expression)
  rw [← Tray.snapshot_of_result hx] at hread
  have hz : z = y.restore (.dice none (x.tray.tooltip x.expression)) :=
    call_restoreText_of_ok hread y
  rw [hz, htooltip, restore, Tray.restore_dice_none (by decide)]
  exact ⟨hx, rfl, rfl⟩

end Table

end DiceTray

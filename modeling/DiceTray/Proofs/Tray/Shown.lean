import DiceTray.Proofs.Tray.Restored

namespace DiceTray

def Snapshot.tooltip? : Snapshot → Option String
  | .dice _ tooltip => if tooltip = "" then none else some tooltip
  | .other => none

namespace Call

def isRoll : Call → Bool
  | .roll .. => true
  | _ => false

def shown? : Call → Option Snapshot
  | .roll .. => none
  | .restore shown => some shown
  | .restoreText json => (Snapshot.read json).toOption

def tooltip? (c : Call) : Option String := c.shown?.bind Snapshot.tooltip?

end Call

namespace Tray

variable {t : Tray}

theorem stuntPoints_restore (shown : Snapshot) (t : Tray) :
    (t.restore shown).stuntPoints = t.stuntPoints := by
  cases shown <;> rfl

theorem annotation?_congr {u : Tray} (h : t.stuntPoints = u.stuntPoints) :
    t.annotation? = u.annotation? := by
  rw [annotation?, annotation?, h]

theorem restored_restore (shown : Snapshot) (t : Tray) :
    (t.restore shown).restored = (shown.tooltip?.or t.restored) := by
  cases shown with
  | other => rfl
  | dice result tooltip =>
      change (if tooltip = "" then t.restored else some tooltip) = _
      rw [Snapshot.tooltip?]
      split <;> rfl

theorem annotation?_getD_eq_empty_iff : t.annotation?.getD "" = "" ↔ t.annotation? = none := by
  constructor
  · intro h
    cases hp : t.stuntPoints with
    | none => rw [annotation?, hp]; rfl
    | some n =>
        rw [annotation?, hp] at h
        have hchars := congrArg String.toList h
        simp at hchars
  · intro h
    rw [h]
    rfl

theorem tooltip_eq_getD (expression : String) (t : Tray) :
    t.tooltip expression = t.restored.getD
      (expression ++ "\n" ++ String.ofList (substitute t.pools expression.toList)) := by
  rw [tooltip]
  cases t.restored <;> rfl

theorem display?_restore {tooltip : String} (h : tooltip ≠ "") (n : Number) (t : Tray)
    (options : DisplayOptions) (expression : String) :
    (t.restore (.dice (some n) tooltip)).display? options expression =
      ((({} : Tray).restore (.dice (some n) tooltip)).display? options expression).map
        (· ++ t.annotation?.getD "") := by
  rw [restore_dice h, restore_dice h]
  simp only [display?, Option.map_some, Option.some.injEq]
  change _ = _ ++ "" ++ _
  rw [String.append_empty]
  rfl

end Tray

namespace Table

variable {expression : String} {tokens : List Token} {b : Table}

theorem run_append (b : Table) (before after : List Call) :
    b.run (before ++ after) = (b.run before).run after := List.foldl_append

theorem tray_call_of_not_isRoll {c : Call} (h : c.isRoll = false) (b : Table) :
    (b.call c).tray = (c.shown?.map fun shown => b.tray.restore shown).getD b.tray := by
  cases c with
  | roll r s => cases h
  | restore shown => rfl
  | restoreText json =>
      rw [Call.shown?]
      cases hread : Snapshot.read json with
      | error f => rw [call_restoreText_of_error hread]; rfl
      | ok shown => rw [call_restoreText_of_ok hread]; rfl

theorem stuntPoints_call_of_not_isRoll {c : Call} (h : c.isRoll = false) (b : Table) :
    (b.call c).tray.stuntPoints = b.tray.stuntPoints := by
  rw [tray_call_of_not_isRoll h]
  cases c.shown? with
  | none => rfl
  | some shown => exact Tray.stuntPoints_restore shown b.tray

theorem restored_call_of_not_isRoll {c : Call} (h : c.isRoll = false) (b : Table) :
    (b.call c).tray.restored = c.tooltip?.or b.tray.restored := by
  rw [tray_call_of_not_isRoll h, Call.tooltip?]
  cases c.shown? with
  | none => rfl
  | some shown => exact Tray.restored_restore shown b.tray

theorem stuntPoints_run_of_not_isRoll {calls : List Call} (h : ∀ c ∈ calls, c.isRoll = false)
    (b : Table) : (b.run calls).tray.stuntPoints = b.tray.stuntPoints := by
  induction calls generalizing b with
  | nil => rfl
  | cons c calls ih =>
      have hc := stuntPoints_call_of_not_isRoll (h c (by simp)) b
      exact (ih (fun d hd => h d (by simp [hd])) (b.call c)).trans hc

/-- A result is shown with the annotation of the last roll, also when it was restored after it: on a
tray that never rolled the same outcome is shown without one. -/
theorem display_of_restore (expression : String) (tokens tokens' : List Token)
    (calls : List Call) (n : Number) {tooltip : String} (h : tooltip ≠ "") :
    let shown : Snapshot := .dice (some n) tooltip
    let y := run { expression, tokens } calls
    let z := y.call (.restore shown)
    let fresh := call { expression, tokens := tokens' } (.restore shown)
    z.tray.tooltip z.expression = tooltip ∧ fresh.tray.tooltip fresh.expression = tooltip ∧
      (∀ options, z.tray.display? options z.expression =
        (fresh.tray.display? options fresh.expression).map (· ++ y.tray.annotation?.getD "")) ∧
      (∀ options, z.tray.display? options z.expression =
        fresh.tray.display? options fresh.expression ↔ y.tray.annotation? = none) ∧
      ((∀ c ∈ calls, c.isRoll = false) → y.tray.annotation? = none) ∧
      ∀ (before after : List Call) {σ : Type} (r : Roller σ) (s : σ),
        calls = before ++ .roll r s :: after → (∀ c ∈ after, c.isRoll = false) →
          y.tray.annotation? =
            ((run { expression, tokens } before).call (.roll r s)).tray.annotation? := by
  intro shown y z fresh
  have hexpression : y.expression = expression := (served_run served_start calls).1.expression
  have hdisplay (options : DisplayOptions) : z.tray.display? options z.expression =
      (fresh.tray.display? options fresh.expression).map (· ++ y.tray.annotation?.getD "") := by
    change (y.tray.restore shown).display? options y.expression = _
    rw [hexpression]
    exact Tray.display?_restore h n y.tray options expression
  refine ⟨?_, ?_, hdisplay, fun options => ?_, fun hnone => ?_, ?_⟩
  · change (y.tray.restore shown).tooltip y.expression = tooltip
    rw [Tray.restore_dice h]
    rfl
  · change (({} : Tray).restore shown).tooltip expression = tooltip
    rw [Tray.restore_dice h]
    rfl
  · obtain ⟨text, htext⟩ : ∃ text, fresh.tray.display? options fresh.expression = some text := by
      change ∃ text, (({} : Tray).restore shown).display? options expression = some text
      rw [Tray.restore_dice h]
      exact ⟨_, rfl⟩
    rw [hdisplay, htext, Option.map_some, Option.some.injEq, ← Tray.annotation?_getD_eq_empty_iff]
    simp
  · exact Tray.annotation?_congr (stuntPoints_run_of_not_isRoll hnone _)
  · intro before after σ r s he hafter
    refine Tray.annotation?_congr ?_
    have hy : y = ((run { expression, tokens } before).call (.roll r s)).run after := by
      change run _ calls = _
      rw [he, run_append]
      rfl
    rw [hy]
    exact stuntPoints_run_of_not_isRoll hafter _

theorem display_of_restore_stunt :
    let tokens : List Token := [.stunt "3d6", .dice "1", .math .add]
    let before : List Call := [.restore (.dice (some (.int 9)) "nine")]
    let after : List Call := [.restore (.dice none "later"), .restore .other]
    let y := run { expression := "3d6 + 1", tokens }
      (before ++ .roll (Roller.replay [4, 4, 2]) 0 :: after)
    let z := y.call (.restore (.dice (some (.int 7)) "seven"))
    let fresh := call { expression := "3d6 + 1", tokens := [] }
      (.restore (.dice (some (.int 7)) "seven"))
    z.tray.tooltip z.expression = "seven" ∧ fresh.tray.tooltip fresh.expression = "seven" ∧
      y.tray.annotation? = some " - 4 Stunt Points" ∧
      ∀ options, z.tray.display? options z.expression =
        (fresh.tray.display? options fresh.expression).map (· ++ " - 4 Stunt Points") := by
  intro tokens before after y z fresh
  obtain ⟨hz, hfresh, hdisplay, -, -, hlast⟩ := display_of_restore "3d6 + 1" tokens []
    (before ++ .roll (Roller.replay [4, 4, 2]) 0 :: after) (.int 7) (by decide : "seven" ≠ "")
  have hafter : ∀ c ∈ after, c.isRoll = false := by simp [after, Call.isRoll]
  have hpoints : y.tray.annotation? = some " - 4 Stunt Points" :=
    (hlast before after _ 0 rfl hafter).trans (by decide +kernel)
  refine ⟨hz, hfresh, hpoints, fun options => ?_⟩
  have hshown := hdisplay options
  rwa [show (run _ _).tray.annotation? = _ from hpoints] at hshown

theorem display_of_restore_doubles :
    let rolled := run { expression := "3d6", tokens := [.stunt "3d6"] }
      [.roll (Roller.replay [4, 4, 2]) 0]
    let shown : Snapshot := .dice (some (.int 7)) "3d6\n[1, 2, 4]"
    let z := rolled.call (.restore shown)
    let fresh := call { expression := "3d6", tokens := [.stunt "3d6"] } (.restore shown)
    z.tray.display? {} z.expression = some "7 - 4 Stunt Points" ∧
      fresh.tray.display? {} fresh.expression = some "7" := by
  decide +kernel

theorem restored_call {f : Fault} (h : Served expression tokens b)
    (hf : Tray.verdict? tokens = some f) (c : Call) :
    (b.call c).tray.restored = c.tooltip?.or b.tray.restored := by
  obtain ⟨⟨k, hk⟩, -, rfl⟩ := h
  cases hroll : c.isRoll with
  | false => exact restored_call_of_not_isRoll hroll b
  | true =>
      cases c with
      | roll r s => exact Tray.restored_of_roll_error ((Tray.roll_error_iff hk r s).mpr hf)
      | _ => cases hroll

theorem restored_run {f : Fault} (h : Served expression tokens b)
    (hf : Tray.verdict? tokens = some f) (calls : List Call) :
    (b.run calls).tray.restored = (calls.filterMap Call.tooltip?).getLast?.or b.tray.restored := by
  induction calls generalizing b with
  | nil => rfl
  | cons c calls ih =>
      rw [getLast?_filterMap_cons, Option.or_assoc, ← restored_call h hf c]
      exact ih (served_call h c).1

/-- A roll that succeeds shows its own breakdown, whatever was restored before it. A roll that fails
does not: below the expression stands still the breakdown that was restored last. -/
theorem tooltip_of_call_roll (expression : String) (tokens : List Token) (calls : List Call)
    {σ : Type} (r : Roller σ) (s : σ) :
    let b := run { expression, tokens } calls
    let rolled := b.call (.roll r s)
    let own := expression ++ "\n" ++
      String.ofList (Tray.substitute rolled.tray.pools expression.toList)
    (∀ n, (b.tray.roll r tokens s).1 = .ok n →
      rolled.tray.tooltip rolled.expression = own ∧
        rolled.tray.snapshot rolled.expression = .dice (some n) own) ∧
    ∀ f, (b.tray.roll r tokens s).1 = .error f →
      let kept := (calls.filterMap Call.tooltip?).getLast?.getD own
      rolled.tray.tooltip rolled.expression = kept ∧
        rolled.tray.snapshot rolled.expression = .dice none kept := by
  intro b rolled own
  have hb : Served expression tokens b := (served_run served_start calls).1
  have hexpression : rolled.expression = expression := (served_call hb _).1.expression
  have hroll : rolled.tray = (b.tray.roll r tokens s).2.1 := by
    change (b.tray.roll r b.tokens s).2.1 = _
    rw [hb.tokens]
  have htooltip : rolled.tray.tooltip rolled.expression = rolled.tray.restored.getD own := by
    rw [hexpression, Tray.tooltip_eq_getD]
  refine ⟨fun n hn => ?_, fun f hf => ?_⟩
  · have hrestored : rolled.tray.restored = none := hroll ▸ Tray.restored_of_roll_ok hn
    rw [hrestored, Option.getD_none] at htooltip
    have hresult : rolled.tray.result = some n := hroll ▸ Tray.result_of_roll_ok hn
    rw [Tray.snapshot_of_result hresult, htooltip]
    exact ⟨rfl, rfl⟩
  · intro kept
    obtain ⟨k, hk⟩ := hb.session
    have hrestored : rolled.tray.restored = (calls.filterMap Call.tooltip?).getLast? := by
      rw [hroll, Tray.restored_of_roll_error hf, restored_run served_start
        ((Tray.roll_error_iff hk r s).mp hf)]
      exact Option.or_none
    have hresult : rolled.tray.result = none := hroll ▸ Tray.result_of_roll_error hf
    rw [hrestored] at htooltip
    rw [Tray.snapshot, hresult, htooltip]
    exact ⟨rfl, rfl⟩

theorem tooltip_of_call_roll_again :
    let tokens : List Token := [.dice "2d6", .dice "2x6", .math .add]
    let calls : List Call := [.restore (.dice none "old"), .roll (Roller.replay [1, 2]) 0,
      .restore (.dice (some (.int 3)) "new"), .restore (.dice (some (.int 4)) "")]
    let b := run { expression := "2d6 + 2x6", tokens } calls
    let rolled := b.call (.roll (Roller.replay [5, 6]) 0)
    (b.tray.roll (Roller.replay [5, 6]) tokens 0).1 = .error (.invalidNotation "2x6") ∧
      rolled.tray.tooltip rolled.expression = "new" ∧
      rolled.tray.snapshot rolled.expression = .dice none "new" := by
  intro tokens calls b rolled
  have hf : (b.tray.roll (Roller.replay [5, 6]) tokens 0).1 = .error (.invalidNotation "2x6") := by
    rfl
  have hkept : (calls.filterMap Call.tooltip?).getLast? = some "new" := by decide
  obtain ⟨htooltip, hsnapshot⟩ := (tooltip_of_call_roll "2d6 + 2x6" tokens calls
    (Roller.replay [5, 6]) 0).2 _ hf
  rw [hkept] at htooltip hsnapshot
  exact ⟨hf, htooltip, hsnapshot⟩

theorem tooltip_of_failed_roll :
    let restored := call { expression := "2x6", tokens := [.dice "2x6"] }
      (.restore (.dice (some (.int 3)) "old"))
    let rolled := restored.call (.roll (Roller.replay []) 0)
    rolled.tray.tooltip rolled.expression = "old" ∧
      "2x6" ++ "\n" ++ String.ofList (Tray.substitute rolled.tray.pools "2x6".toList) =
        "2x6\n2x6" := by
  decide +kernel

end Table

end DiceTray

import DiceTray.Proofs.Tray.Failure
import DiceTray.Snapshot.Json

namespace DiceTray

inductive Call : Type 1 where
  | roll {σ : Type} (r : Roller σ) (s : σ)
  | restore (shown : Snapshot)
  | restoreText (json : String)

namespace Pool

variable {u : Token} {p : Pool}

structure AskedBy (u : Token) (p : Pool) : Prop where
  source : p.source = u.text
  stunt : (∃ d, p.content = .stunt d) ↔ u.kind = .stunt
  reading : u.reading = .ok (Pool.denotation p)

theorem source_blank (p : Pool) : p.blank.source = p.source := by
  rcases p with ⟨source, value | d | d⟩ <;> rfl

theorem exists_stunt_blank (p : Pool) :
    (∃ d, p.blank.content = .stunt d) ↔ ∃ d, p.content = .stunt d := by
  rcases p with ⟨source, value | d | d⟩
  · exact Iff.rfl
  · exact ⟨nofun, nofun⟩
  · exact ⟨fun _ => ⟨d, rfl⟩, fun _ => ⟨_, rfl⟩⟩

theorem askedBy_of_blank? (h : u.blank? = some p.blank) : AskedBy u p := by
  refine ⟨?_, ?_, (denotation_blank p) ▸ Token.reading_of_blank? h⟩
  · rw [← source_blank p]
    rcases Token.blank?_cases h with ⟨-, he⟩ | ⟨-, n, -, he⟩
    · rw [he]
    · rw [he]
      cases n <;> rfl
  · rw [← exists_stunt_blank p]
    rcases Token.blank?_cases h with ⟨hk, he⟩ | ⟨hk, n, -, he⟩
    · rw [he]
      exact iff_of_true ⟨_, rfl⟩ hk
    · rw [he]
      refine iff_of_false ?_ hk
      cases n <;> exact nofun

end Pool

namespace Table

def call (b : Table) : Call → Table
  | .roll r s => (b.roll r s).2.1
  | .restore shown => b.restore shown
  | .restoreText json =>
      match Snapshot.read json with
      | .ok shown => b.restore shown
      | .error _ => b

def run (b : Table) (calls : List Call) : Table := calls.foldl call b

structure Served (expression : String) (tokens : List Token) (b : Table) : Prop where
  session : ∃ k, Session tokens k b.tray
  expression : b.expression = expression
  tokens : b.tokens = tokens

variable {expression : String} {tokens : List Token} {b : Table}

theorem served_start : Served expression tokens { expression, tokens } :=
  ⟨⟨0, .start⟩, rfl, rfl⟩

theorem served_call (h : Served expression tokens b) (c : Call) :
    Served expression tokens (b.call c) ∧
      b.tray.pools.length ≤ (b.call c).tray.pools.length := by
  obtain ⟨⟨k, hk⟩, he, rfl⟩ := h
  have hrestore (shown : Snapshot) :
      Served expression b.tokens (b.restore shown) ∧
        b.tray.pools.length ≤ (b.restore shown).tray.pools.length := by
    refine ⟨⟨⟨k, .restored hk shown⟩, he, rfl⟩, ?_⟩
    cases shown <;> exact Nat.le_refl _
  cases c with
  | roll r s =>
      obtain ⟨-, hle, -⟩ := Tray.laid_roll (r := r) (s := s) (Tray.laid_session hk).1
      cases hr : (b.tray.roll r b.tokens s).1 with
      | ok n => exact ⟨⟨⟨k + 1, .passed hk r s hr⟩, he, rfl⟩, hle⟩
      | error f => exact ⟨⟨⟨k, .aborted hk r s hr⟩, he, rfl⟩, hle⟩
  | restore shown => exact hrestore shown
  | restoreText json =>
      cases hj : Snapshot.read json with
      | ok shown =>
          simp only [call, hj]
          exact hrestore shown
      | error f =>
          simp only [call, hj]
          exact ⟨⟨⟨k, hk⟩, he, rfl⟩, Nat.le_refl _⟩

theorem served_run (h : Served expression tokens b) (calls : List Call) :
    Served expression tokens (b.run calls) ∧
      b.tray.pools.length ≤ (b.run calls).tray.pools.length := by
  induction calls generalizing b with
  | nil => exact ⟨h, Nat.le_refl _⟩
  | cons c calls ih =>
      obtain ⟨hc, hle⟩ := served_call h c
      obtain ⟨hrun, hle'⟩ := ih hc
      exact ⟨hrun, Nat.le_trans hle hle'⟩

theorem pools_of_calls (expression : String) (tokens : List Token) (calls : List Call) :
    let b := run { expression, tokens } calls
    b.expression = expression ∧ b.tokens = tokens ∧
      b.tray.pools.length ≤ (Token.poolTokens tokens).length ∧
      (∀ more : List Call, b.tray.pools.length ≤ (b.run more).tray.pools.length) ∧
      (∀ {σ : Type} (r : Roller σ) (s : σ) (n : Number), (b.tray.roll r b.tokens s).1 = .ok n →
        (b.call (.roll r s)).tray.pools.length = (Token.poolTokens tokens).length) ∧
      ∀ (i : Nat) (p : Pool), b.tray.pools[i]? = some p →
        ∃ u, (Token.poolTokens tokens)[i]? = some u ∧ Pool.AskedBy u p := by
  intro b
  have hb : Served expression tokens b := (served_run served_start calls).1
  obtain ⟨k, hk⟩ := hb.session
  have hstocked := Tray.stocked_session hk
  refine ⟨hb.expression, hb.tokens, hstocked.length_le, fun more => (served_run hb more).2,
    fun r s n hn => ?_, fun i p hp => ?_⟩
  · rw [hb.tokens] at hn
    change (b.tray.roll r b.tokens s).2.1.pools.length = _
    rw [hb.tokens]
    exact Tray.length_pools_of_roll_ok hstocked hn
  · have hlt : i < (Token.poolTokens tokens).length :=
      Nat.lt_of_lt_of_le (List.getElem?_eq_some_iff.mp hp).1 hstocked.length_le
    have hu := List.getElem?_eq_getElem hlt
    exact ⟨_, hu, Pool.askedBy_of_blank? (hstocked.blank?_eq hu hp)⟩

theorem pools_of_calls_restored :
    let tokens : List Token := [.dice "2d6", .stunt "s", .math .add]
    let shown : List Call := [.restore (.dice none "5")]
    let b := run { expression := "2d6 + s", tokens } shown
    let rolled := b.call (.roll (Roller.replay [1, 2, 3]) 0)
    rolled.expression = "2d6 + s" ∧ rolled.tokens = tokens ∧ rolled.tray.pools.length = 2 ∧
      ∃ p, rolled.tray.pools[1]? = some p ∧ Pool.AskedBy (.stunt "s") p := by
  intro tokens shown b rolled
  obtain ⟨-, -, -, -, hfull, -⟩ := pools_of_calls "2d6 + s" tokens shown
  obtain ⟨hexpression, htokens, -, -, -, hasked⟩ :=
    pools_of_calls "2d6 + s" tokens (shown ++ [.roll (Roller.replay [1, 2, 3]) 0])
  have hroll : ((({} : Tray).restore (.dice none "5")).roll (Roller.replay [1, 2, 3]) tokens 0).1 =
      .ok (.int 10) := by rfl
  have hlen : rolled.tray.pools.length = 2 := hfull (Roller.replay [1, 2, 3]) 0 (.int 10) hroll
  have hp : rolled.tray.pools[1]? = some _ := List.getElem?_eq_getElem (by rw [hlen]; decide)
  obtain ⟨u, hu, ho⟩ := hasked 1 _ hp
  cases hu
  exact ⟨hexpression, htokens, hlen, _, hp, ho⟩

end Table

end DiceTray

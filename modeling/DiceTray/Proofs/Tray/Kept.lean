import DiceTray.Proofs.Hand.Kept
import DiceTray.Proofs.Hand.Total
import DiceTray.Proofs.Tray.Failure
import DiceTray.Proofs.Tray.Value

namespace DiceTray

def ModifierWord.keeps : ModifierWord → Bool
  | .keepHigh | .keepLow | .dropHigh | .dropLow => true
  | _ => false

namespace Token

def keeps (t : Token) : Bool :=
  match t.kind with
  | .modifier word => word.keeps
  | _ => false

def left? (keep drop : ModifierWord) (count : Nat) (t : Token) : Option Nat :=
  if t.kind = .modifier keep then some t.kept
  else if t.kind = .modifier drop then some (count - min t.kept count)
  else none

def left (keep drop : ModifierWord) (count : Nat) (ts : List Token) : Nat :=
  (ts.filterMap (left? keep drop count)).getLast?.getD count

variable {t : Token} {ts : List Token}

theorem exists_of_keeps (h : t.keeps = true) :
    ∃ word, t.kind = .modifier word ∧ word.keeps = true := by
  unfold keeps at h
  split at h
  case h_1 word hk => exact ⟨word, hk, h⟩
  case h_2 => cases h

theorem isModifier_of_keeps (h : t.keeps = true) : t.kind.isModifier = true := by
  obtain ⟨word, hk, -⟩ := exists_of_keeps h
  rw [hk]
  rfl

theorem isPool_of_isModifier (h : t.kind.isModifier = true) : t.kind.isPool = false := by
  obtain ⟨word, hk⟩ := exists_word_of_isModifier h
  exact isPool_of_modifier hk

theorem modifier?_of_keeps (h : t.keeps = true) (count : Nat) :
    (t.modifier? count .keepHigh).map Modifier.magnitude = t.left? .keepHigh .dropLow count ∧
      (t.modifier? count .keepLow).map Modifier.magnitude = t.left? .keepLow .dropHigh count ∧
      t.modifier? count .reroll = none ∧ t.modifier? count .explode = none ∧
      t.modifier? count .explodeInto = none := by
  obtain ⟨word, hk, hw⟩ := exists_of_keeps h
  have hleft : count - min t.kept count = count - t.kept := by omega
  cases word with
  | keepHigh | keepLow | dropHigh | dropLow => simp [modifier?, binding?, left?, hk, hleft]
  | explode | explodeInto | reroll => cases hw

theorem left_of_dropLow (h : t.kind = .modifier .dropLow) (count : Nat) :
    left .keepHigh .dropLow count [t] = count - min t.kept count ∧
      left .keepLow .dropHigh count [t] = count := by
  simp [left, left?, h]

theorem left_of_dropHigh (h : t.kind = .modifier .dropHigh) (count : Nat) :
    left .keepHigh .dropLow count [t] = count ∧
      left .keepLow .dropHigh count [t] = count - min t.kept count := by
  simp [left, left?, h]

end Token

theorem map_getLast?_filterMap {α β γ : Type} {f : α → Option β} {g : β → γ} {f' : α → Option γ}
    {l : List α} (h : ∀ a ∈ l, (f a).map g = f' a) :
    (l.filterMap f).getLast?.map g = (l.filterMap f').getLast? := by
  rw [← List.getLast?_map, List.map_filterMap, List.filterMap_congr h]

namespace Group

variable {g : Group}

theorem modifier?_of_keeps (h : ∀ u ∈ g.rest, u.keeps = true) (count : Nat) :
    ((g.modifier? count .keepHigh).map Modifier.magnitude).getD count =
        Token.left .keepHigh .dropLow count g.rest ∧
      ((g.modifier? count .keepLow).map Modifier.magnitude).getD count =
        Token.left .keepLow .dropHigh count g.rest ∧
      g.modifier? count .reroll = none ∧ g.modifier? count .explode = none ∧
      g.modifier? count .explodeInto = none := by
  have hall (u : Token) (hu : u ∈ g.rest) := Token.modifier?_of_keeps (h u hu) count
  have hnone {phase : Phase} (hn : ∀ u ∈ g.rest, u.modifier? count phase = none) :
      g.modifier? count phase = none := by
    rw [modifier?, List.filterMap_eq_nil_iff.mpr hn]
    rfl
  refine ⟨?_, ?_, hnone fun u hu => (hall u hu).2.2.1, hnone fun u hu => (hall u hu).2.2.2.1,
    hnone fun u hu => (hall u hu).2.2.2.2⟩
  · rw [modifier?, map_getLast?_filterMap fun u hu => (hall u hu).1]
    rfl
  · rw [modifier?, map_getLast?_filterMap fun u hu => (hall u hu).2.1]
    rfl

end Group

namespace Pool

variable {σ : Type} {p : Pool} {count : Nat} {faces : Faces}

theorem modifiers_rolled (r : Roller σ) (p : Pool) (s : σ) :
    (p.rolled r s).modifiers = p.modifiers := by
  rcases p with ⟨source, value | d | d⟩ <;> rfl

theorem conditions_rolled (r : Roller σ) (p : Pool) (s : σ) :
    (p.rolled r s).conditions = p.conditions := by
  rcases p with ⟨source, value | d | d⟩ <;> rfl

theorem denotation_rolled (r : Roller σ) (p : Pool) (s : σ) :
    denotation (p.rolled r s) = denotation p := by
  rcases p with ⟨source, value | d | d⟩ <;> rfl

theorem kept_rolled (h : denotation p = .dice count faces) (hr : p.modifiers.reroll = none)
    (he : p.modifiers.explode = none) (hi : p.modifiers.explodeInto = none)
    (hc : p.conditions = []) (r : Roller σ) (s : σ) :
    let hand := (p.rolled r s).hand
    let high := (p.modifiers.keepHigh.map Modifier.magnitude).getD count
    let low := (p.modifiers.keepLow.map Modifier.magnitude).getD count
    hand.length = count ∧ hand.Kept (count - min low count) high ∧
      (p.rolled r s).result = hand.result := by
  obtain ⟨d, hd, rfl, rfl⟩ := exists_dice_of_denotation h
  simp only [modifiers, conditions, hd] at hr he hi hc ⊢
  have hrolled : (p.rolled r s).dice? = some (d.roll r s).2.1 := by
    rw [rolled, roll_of_dice hd]
    exact dice?_withDice hd _
  obtain ⟨hlen, hkept⟩ := d.kept_roll r s hr he hi hc
  rw [hand_of_dice hrolled]
  exact ⟨hlen, hkept, result_of_dice hrolled⟩

theorem kept_of_bound {g : Group} {r : Roller σ} {s : σ} (h : Bound g (p.rolled r s))
    (hread : g.head.reading = .ok (.dice count faces)) (hconditions : g.head.conditions = [])
    (hrest : ∀ u ∈ g.rest, u.keeps = true) :
    let hand := (p.rolled r s).hand
    let high := Token.left .keepHigh .dropLow count g.rest
    let low := Token.left .keepLow .dropHigh count g.rest
    hand.length = count ∧ hand.Kept (count - min low count) high ∧
      (p.rolled r s).result = hand.result := by
  obtain ⟨hhigh, hlow, hreroll, hexplode, hinto⟩ := Group.modifier?_of_keeps hrest count
  cases h with
  | fixed value hr _ _ _ => cases hread.symm.trans hr
  | dice count' faces' hr hp hm hc =>
      cases hread.symm.trans hr
      rw [modifiers_rolled] at hm
      rw [conditions_rolled, hconditions] at hc
      rw [denotation_rolled] at hp
      have hkept := kept_rolled hp ((hm .reroll).trans hreroll) ((hm .explode).trans hexplode)
        ((hm .explodeInto).trans hinto) hc r s
      rw [← hhigh, ← hlow, ← hm, ← hm]
      exact hkept

end Pool

namespace Group

variable {g : Group}

theorem all_of_apart {ts : List Token} (h : ∀ u ∈ ts, u.kind.isPool = false) : all ts = [] := by
  induction ts with
  | nil => rfl
  | cons t ts ih =>
      rw [all, dif_neg (by simp [h t]), ih fun u hu => h u (by simp [hu])]

theorem all_tokens (g : Group) : all g.tokens = [g] := by
  have hlead : lead g.rest = g.rest :=
    List.takeWhile_eq_self_iff.mpr fun u hu => by simp [g.apart u hu]
  rw [tokens, all, dif_pos g.isPool, all_of_apart g.apart]
  simp only [hlead]

theorem poolTokens_tokens (g : Group) : Token.poolTokens g.tokens = [g.head] := by
  rw [tokens, Token.poolTokens_cons_of_isPool g.isPool, Token.poolTokens,
    List.filter_eq_nil_iff.mpr fun u hu => by simp [g.apart u hu]]

theorem readable_of_mem_tokens (h : g.head.readable = true) :
    ∀ u ∈ g.tokens, u.readable = true := by
  intro u hu
  rcases List.mem_cons.mp hu with rfl | hu
  · exact h
  · exact Token.readable_of_not_isPool (g.apart u hu)

end Group

namespace Tray

variable {σ : Type} {r : Roller σ} {t : Tray} {s : σ} {g : Group} {k : Nat}

theorem exists_rolled_of_roll_ok (hrest : ∀ u ∈ g.rest, u.kind.isModifier = true) {n : Number}
    (h : (t.roll r g.tokens s).1 = .ok n) :
    ∃ (pool : Pool) (s' : σ), (t.roll r g.tokens s).2.1.pools[0]? = some (pool.rolled r s') ∧
      n = (pool.rolled r s').result := by
  obtain ⟨p, x, xs, hrun, hx, hn, hpools, -⟩ := exists_of_roll_ok h
  have hops := (Pass.follows_run (Pass.follows_start t s) hrun).operands
  rw [Group.tokens, Sketch.run_of_postfix (.leaf g.isPool hrest) [], hx] at hops
  cases hops with
  | cons hstands _ =>
      cases hstands with
      | pool hlt =>
          have hpool : p.closed.pools[0]? = some p.pools[0] := by
            rw [(Pass.closed_frame p).1]
            exact List.getElem?_eq_getElem hlt
          rw [Pass.settle_pool hpool] at hn hpools
          refine ⟨p.pools[0], _, ?_, hn⟩
          rw [hpools, (Pass.closed_frame p).1]
          exact List.getElem?_set_self hlt

theorem exists_rolled_of_session (hread : g.head.readable = true)
    (hrest : ∀ u ∈ g.rest, u.kind.isModifier = true) (h : Session g.tokens k t)
    (r : Roller σ) (s : σ) :
    ∃ (pool : Pool) (s' : σ), (t.roll r g.tokens s).1 = .ok (pool.rolled r s').result ∧
      (t.roll r g.tokens s).2.1.pools = [pool.rolled r s'] ∧ Pool.Bound g (pool.rolled r s') := by
  obtain ⟨hblank, -, hsome⟩ :=
    roll_of_readable (stocked_session h) (Group.readable_of_mem_tokens hread) r s
  rw [Group.poolTokens_tokens] at hblank hsome
  obtain ⟨n, hn⟩ := hsome (List.cons_ne_nil _ _)
  obtain ⟨pool, s', hrolled, rfl⟩ := exists_rolled_of_roll_ok hrest hn
  obtain ⟨p, hp⟩ : ∃ p, (t.roll r g.tokens s).2.1.pools = [p] :=
    List.length_eq_one_iff.mp (by simpa using congrArg List.length hblank)
  have hlaid := (laid_roll (r := r) (s := s) (laid_session h).1).1
  rw [Group.all_tokens] at hlaid
  refine ⟨pool, s', hn, ?_, hlaid.bound rfl hrolled⟩
  rw [hp] at hrolled ⊢
  rw [Option.some.inj hrolled]

theorem kept_of_session {head : Token} {rest : List Token} {count : Nat} {faces : Faces}
    (hkind : head.kind = .dice) (hconditions : head.conditions = [])
    (hread : Notation.ofText? head.data = some (.dice count faces))
    (hrest : ∀ u ∈ rest, u.keeps = true) (h : Session (head :: rest) k t)
    (r : Roller σ) (s : σ) :
    let after := t.roll r (head :: rest) s
    let high := Token.left .keepHigh .dropLow count rest
    let low := Token.left .keepLow .dropHigh count rest
    ∃ n p, after.1 = .ok n ∧ after.2.1.pools = [p] ∧ p.hand.length = count ∧
      p.hand.Kept (count - min low count) high ∧
      n = Number.sum ((p.hand.filter Die.counts).map fun d => .int d.value) ∧
      ∀ u, rest = [u] →
        (u.kind = .modifier .dropLow → p.hand.DropsLowest (min u.kept count)) ∧
        (u.kind = .modifier .dropHigh → p.hand.DropsHighest (min u.kept count)) := by
  intro after high low
  have hmodifier (u : Token) (hu : u ∈ rest) := Token.isModifier_of_keeps (hrest u hu)
  let g : Group :=
    { head, rest
      isPool := by rw [hkind]; rfl
      apart := fun u hu => Token.isPool_of_isModifier (hmodifier u hu) }
  have hreadable : head.readable = true := by simp [Token.readable, hread]
  have hreading : head.reading = .ok (.dice count faces) := by
    rw [Token.reading_of_ne_stunt (by simp [hkind]), Notation.read, hread]
  obtain ⟨pool, s', hn, hpools, hbound⟩ :=
    exists_rolled_of_session (g := g) hreadable hmodifier h r s
  obtain ⟨hlen, hkept, hresult⟩ := Pool.kept_of_bound hbound hreading hconditions hrest
  refine ⟨_, pool.rolled r s', hn, hpools, hlen, hkept, ?_,
    fun u hu => ⟨fun hk => ?_, fun hk => ?_⟩⟩
  · rw [hresult, Hand.result_eq_sum_counts]
  · subst hu
    obtain ⟨hh, hl⟩ := Token.left_of_dropLow hk count
    rw [hh, hl, Nat.min_self, Nat.sub_self, ← hlen] at hkept
    rw [← hlen]
    exact hkept.dropsLowest (Nat.min_le_right ..)
  · subst hu
    obtain ⟨hh, hl⟩ := Token.left_of_dropHigh hk count
    have hdropped : count - min (count - min u.kept count) count = min u.kept count := by omega
    rw [hh, hl, hdropped, ← hlen] at hkept
    rw [← hlen]
    exact hkept.dropsHighest (Nat.min_le_right ..)

theorem kept_of_session_both_ends :
    let head := Token.dice "4d6"
    let rest : List Token :=
      [⟨.modifier .dropLow, "dl9", "9", []⟩, ⟨.modifier .keepHigh, "kh3", "3", []⟩,
        ⟨.modifier .keepLow, "kl1", "1", []⟩, ⟨.modifier .dropHigh, "dh", "", []⟩]
    let lone : List Token := [⟨.modifier .dropLow, "dl9", "9", []⟩]
    let first := ({} : Tray).roll (Roller.replay [3, 1, 4, 6]) (head :: rest) 0
    let shown := first.2.1.restore (.dice none "5")
    let second := shown.roll (Roller.replay [5, 2, 5, 5]) (head :: rest) 0
    let single := ({} : Tray).roll (Roller.replay [5, 2, 5, 5]) (head :: lone) 0
    Session (head :: rest) 1 shown ∧
      (∃ n p, second.1 = .ok n ∧ second.2.1.pools = [p] ∧ p.hand.Kept 1 3 ∧
        n = Number.sum ((p.hand.filter Die.counts).map fun d => .int d.value)) ∧
      ∃ p, single.2.1.pools = [p] ∧ p.hand.DropsLowest 4 := by
  intro head rest lone first shown second single
  have hread : Notation.ofText? head.data = some (.dice 4 (Faces.ofBounds none 6)) := by
    change Notation.ofText? "4d6" = _
    rfl
  have hrest : ∀ u ∈ rest, u.keeps = true := by decide
  have hlone : ∀ u ∈ lone, u.keeps = true := by decide
  obtain ⟨n, -, hn, -⟩ :=
    kept_of_session rfl rfl hread hrest .start (Roller.replay [3, 1, 4, 6]) 0
  have hshown : Session (head :: rest) 1 shown := .restored (.passed .start _ _ hn) _
  obtain ⟨m, p, hm, hp, -, hkept, hsum, -⟩ :=
    kept_of_session rfl rfl hread hrest hshown (Roller.replay [5, 2, 5, 5]) 0
  obtain ⟨-, q, -, hq, -, -, -, hdrops⟩ :=
    kept_of_session rfl rfl hread hlone .start (Roller.replay [5, 2, 5, 5]) 0
  exact ⟨hshown, ⟨m, p, hm, hp, hkept, hsum⟩, q, hq, (hdrops _ rfl).1 rfl⟩

end Tray

end DiceTray

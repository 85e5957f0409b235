import DiceTray.Proofs.Tray.Walk

namespace DiceTray

inductive Deed where
  | meet (index : Nat) (t : Token)
  | attach (index : Nat) (word : ModifierWord) (t : Token)
  | roll (index : Nat)

namespace Deed

variable {σ : Type} {r : Roller σ}

def rolled? : Deed → Option Nat
  | .roll i => some i
  | _ => none

def perform (r : Roller σ) : Deed → List Pool × σ → Option (List Pool × σ)
  | .meet i t, (ps, s) =>
      match ps[i]? with
      | some pool => some (ps.set i (pool.judged t), s)
      | none =>
          match Pass.create r t s with
          | .ok (pool, s) => if i = ps.length then some (ps ++ [pool.judged t], s) else none
          | .error _ => none
  | .attach i word t, (ps, s) => ps[i]?.map fun pool => (ps.set i (pool.modified word t), s)
  | .roll i, (ps, s) => ps[i]?.map fun pool => (ps.set i (pool.rolled r s), (pool.roll r s).2.2)

def performAll (r : Roller σ) : List Deed → List Pool × σ → Option (List Pool × σ)
  | [], x => some x
  | d :: ds, x => (d.perform r x).bind (performAll r ds)

theorem performAll_append (ds es : List Deed) (x : List Pool × σ) :
    performAll r (ds ++ es) x = (performAll r ds x).bind (performAll r es) := by
  induction ds generalizing x with
  | nil => rfl
  | cons d ds ih =>
      simp only [List.cons_append, performAll]
      cases d.perform r x with
      | none => rfl
      | some y => exact ih y

theorem perform_frame {d : Deed} {ps qs : List Pool} {s u : σ} {i : Nat} {pool : Pool}
    (h : d.perform r (ps, s) = some (qs, u)) (hi : d.rolled? ≠ some i)
    (hp : ps[i]? = some pool) : ∃ pool', qs[i]? = some pool' ∧ pool'.hand = pool.hand := by
  have hlt : i < ps.length := (List.getElem?_eq_some_iff.mp hp).1
  have hset : ∀ (j : Nat) (old new : Pool), ps[j]? = some old → new.hand = old.hand →
      ∃ pool', (ps.set j new)[i]? = some pool' ∧ pool'.hand = pool.hand := by
    intro j old new hold hnew
    by_cases hij : j = i
    · subst hij
      rw [hold, Option.some.injEq] at hp
      exact ⟨new, List.getElem?_set_self hlt, hp ▸ hnew⟩
    · exact ⟨pool, by rw [List.getElem?_set_ne hij, hp], rfl⟩
  cases d with
  | meet j t =>
      cases hj : ps[j]? with
      | some old =>
          simp only [perform, hj, Option.some.injEq, Prod.mk.injEq] at h
          rw [← h.1]
          exact hset j old _ hj (Pool.hand_judged t old)
      | none =>
          simp only [perform, hj] at h
          split at h
          · split at h <;> cases h
            exact ⟨pool, by rw [List.getElem?_append_left hlt, hp], rfl⟩
          · cases h
  | attach j word t =>
      obtain ⟨old, hold, hnew⟩ := Option.map_eq_some_iff.mp h
      cases hnew
      exact hset j old _ hold (Pool.hand_modified word t old)
  | roll j =>
      obtain ⟨old, -, hnew⟩ := Option.map_eq_some_iff.mp h
      cases hnew
      have hij : j ≠ i := fun hji => hi (congrArg some hji)
      exact ⟨pool, by rw [List.getElem?_set_ne hij, hp], rfl⟩

theorem performAll_frame {ds : List Deed} {ps qs : List Pool} {s u : σ} {i : Nat} {pool : Pool}
    (h : performAll r ds (ps, s) = some (qs, u)) (hi : i ∉ ds.filterMap rolled?)
    (hp : ps[i]? = some pool) : ∃ pool', qs[i]? = some pool' ∧ pool'.hand = pool.hand := by
  induction ds generalizing ps s pool with
  | nil =>
      cases h
      exact ⟨pool, hp, rfl⟩
  | cons d ds ih =>
      obtain ⟨⟨ms, v⟩, hd, hds⟩ := Option.bind_eq_some_iff.mp h
      simp only [List.mem_filterMap, List.mem_cons, not_exists, not_and, forall_eq_or_imp] at hi
      obtain ⟨mid, hmid, hmidhand⟩ := perform_frame hd hi.1 hp
      have hrest : i ∉ ds.filterMap rolled? := by
        simp only [List.mem_filterMap, not_exists, not_and]
        exact hi.2
      obtain ⟨pool', hpool', hhand⟩ := ih hds hrest hmid
      exact ⟨pool', hpool', hhand.trans hmidhand⟩

theorem perform_creates {d : Deed} {ps qs : List Pool} {s u : σ} {i : Nat} {pool : Pool}
    (h : d.perform r (ps, s) = some (qs, u)) (hp : ps[i]? = none) (hq : qs[i]? = some pool) :
    ∃ t drawn w, d = .meet i t ∧ Pass.create r t s = .ok (drawn, w) ∧ pool.hand = drawn.hand := by
  have hge : ps.length ≤ i := List.getElem?_eq_none_iff.mp hp
  have hset : ∀ (j : Nat) (new : Pool), (ps.set j new)[i]? ≠ some pool := by
    intro j new
    rw [List.getElem?_eq_none (by simpa using hge)]
    exact nofun
  cases d with
  | meet j t =>
      cases hj : ps[j]? with
      | some old =>
          simp only [perform, hj, Option.some.injEq, Prod.mk.injEq] at h
          rw [← h.1] at hq
          exact absurd hq (hset _ _)
      | none =>
          simp only [perform, hj] at h
          split at h
          case h_1 drawn w hc =>
              split at h <;> cases h
              case isTrue hlen =>
                  have hlt := (List.getElem?_eq_some_iff.mp hq).1
                  simp only [List.length_append, List.length_singleton] at hlt
                  obtain rfl : j = i := by omega
                  rw [hlen, List.getElem?_concat_length, Option.some.injEq] at hq
                  exact ⟨t, drawn, _, rfl, hc, hq ▸ Pool.hand_judged t drawn⟩
          case h_2 => cases h
  | attach j word t =>
      obtain ⟨old, -, hnew⟩ := Option.map_eq_some_iff.mp h
      cases hnew
      exact absurd hq (hset _ _)
  | roll j =>
      obtain ⟨old, -, hnew⟩ := Option.map_eq_some_iff.mp h
      cases hnew
      exact absurd hq (hset _ _)

theorem performAll_creates {ds : List Deed} {ps qs : List Pool} {s u : σ} {i : Nat} {pool : Pool}
    (h : performAll r ds (ps, s) = some (qs, u)) (hi : i ∉ ds.filterMap rolled?)
    (hp : ps[i]? = none) (hq : qs[i]? = some pool) :
    ∃ pre t post ms v drawn w, ds = pre ++ .meet i t :: post ∧
      performAll r pre (ps, s) = some (ms, v) ∧ Pass.create r t v = .ok (drawn, w) ∧
      pool.hand = drawn.hand := by
  induction ds generalizing ps s with
  | nil =>
      cases h
      rw [hp] at hq
      cases hq
  | cons d ds ih =>
      obtain ⟨⟨ms, v⟩, hd, hds⟩ := Option.bind_eq_some_iff.mp h
      have hrest : i ∉ ds.filterMap rolled? := fun hmem =>
        hi (by
          simp only [List.mem_filterMap, List.mem_cons] at hmem ⊢
          obtain ⟨e, he, hei⟩ := hmem
          exact ⟨e, .inr he, hei⟩)
      cases hm : ms[i]? with
      | some made =>
          obtain ⟨t, drawn, w, rfl, hc, hhand⟩ := perform_creates hd hp hm
          obtain ⟨pool', hpool', hhand'⟩ := performAll_frame hds hrest hm
          rw [hq, Option.some.injEq] at hpool'
          exact ⟨[], t, ds, ps, s, drawn, w, rfl, rfl, hc, hpool' ▸ hhand'.trans hhand⟩
      | none =>
          obtain ⟨pre, t, post, ms', v', drawn, w, rfl, hpre, hc, hhand⟩ := ih hds hrest hm
          refine ⟨d :: pre, t, post, ms', v', drawn, w, rfl, ?_, hc, hhand⟩
          exact Option.bind_eq_some_iff.mpr ⟨(ms, v), hd, hpre⟩

end Deed

end DiceTray

import DiceTray.Faces

namespace DiceTray

def drawEach {σ : Type} (draw : Faces → σ → Int64 × σ) (faces : Faces) :
    Nat → σ → List Int64 × σ
  | 0, s => ([], s)
  | n + 1, s =>
      let (v, s) := draw faces s
      let (vs, s) := drawEach draw faces n s
      (v :: vs, s)

theorem length_drawEach {σ : Type} (draw : Faces → σ → Int64 × σ) (faces : Faces) (n : Nat)
    (s : σ) : (drawEach draw faces n s).1.length = n := by
  induction n generalizing s with
  | zero => rfl
  | succ n ih => simp [drawEach, ih]

/-- A source of draws with a state of its own. It may have another way to draw many at once than to
draw them one by one. -/
structure Roller (σ : Type) where
  draw : Faces → σ → Int64 × σ
  drawMany : Faces → Nat → σ → List Int64 × σ := drawEach draw
  length_drawMany : ∀ faces n s, (drawMany faces n s).1.length = n := by
    exact length_drawEach _

namespace Roller

def uniform {g : Type} [RandomGen g] : Roller g where
  draw faces s :=
    let (n, s) := randNat s 0 (faces.span.toNat - 1)
    (Int64.ofInt (faces.low.toInt + n), s)

end Roller

end DiceTray

import DiceTray.Proofs.Hand.Places
import DiceTray.Proofs.Pool.Attached

namespace DiceTray

namespace Dice

variable {σ : Type} (r : Roller σ) (faces : Faces)

def applyPhase? (phase : Phase) (m : Modifier) (h : Hand) (s : σ) : Option (Hand × σ) :=
  let t := trigger m.conditions (default faces phase)
  match phase with
  | .keepHigh => (h.keepHigh? m.magnitude).map fun h => (h, s)
  | .keepLow => (h.keepLow? m.magnitude).map fun h => (h, s)
  | .reroll => Hand.reroll? r faces t m.magnitude h s
  | .explode => Hand.explode? r faces t m.magnitude h s
  | .explodeInto => Hand.explodeInto? r faces t m.magnitude h s

def applyAll? (ms : Modifiers) : List Phase → Hand → σ → Option (Hand × σ)
  | [], h, s => some (h, s)
  | p :: ps, h, s =>
      match ms.get? p with
      | none => applyAll? ms ps h s
      | some m => do
          let (h, s) ← applyPhase? r faces p m h s
          applyAll? ms ps h s

def create? (count : Nat) (s : σ) : Option (Dice × σ) := do
  let (hand, s) ← Hand.draw? r faces count s
  some ({ count, faces, hand }, s)

def roll? (d : Dice) (s : σ) : Option (List Int64 × Dice × σ) := do
  let (drawn, s) ← Hand.draw? r d.faces d.count s
  let (hand, s) ← applyAll? r d.faces d.modifiers Phase.all drawn s
  some (drawn.values, { d with hand := hand.countSuccesses d.conditions }, s)

variable {r faces}

theorem applyPhase?_eq (hf : faces.low ≤ faces.high) (phase : Phase) (m : Modifier) (h : Hand)
    (s : σ) : applyPhase? r faces phase m h s = some (apply r faces phase m h s) := by
  cases phase with
  | keepHigh => simp [applyPhase?, apply, Hand.keepHigh?_eq]
  | keepLow => simp [applyPhase?, apply, Hand.keepLow?_eq]
  | reroll => exact Hand.reroll?_eq _ hf m.magnitude h s
  | explode => exact Hand.explode?_eq _ hf m.magnitude h s
  | explodeInto => exact Hand.explodeInto?_eq _ hf m.magnitude h s

theorem applyAll?_eq (hf : faces.low ≤ faces.high) (ms : Modifiers) (ps : List Phase) (h : Hand)
    (s : σ) : applyAll? r faces ms ps h s = some (applyAll r faces ms ps h s) := by
  induction ps generalizing h s with
  | nil => rfl
  | cons p ps ih =>
      rw [applyAll?, applyAll]
      cases ms.get? p with
      | none => exact ih h s
      | some m => simp [applyPhase?_eq hf, ih]

theorem create?_eq (hf : faces.low ≤ faces.high) (count : Nat) (s : σ) :
    create? r faces count s = some (create r count faces s) := by
  simp [create?, create, Hand.draw?_eq hf]

theorem roll?_eq {d : Dice} (hf : d.faces.low ≤ d.faces.high) (s : σ) :
    d.roll? r s = some (d.roll r s) := by
  simp [roll?, roll, Hand.draw?_eq hf, applyAll?_eq hf]

end Dice

namespace Notation

theorem low_le_high_ofBounds (first : Option Int64) (last : Int64) :
    (Faces.ofBounds first last).low ≤ (Faces.ofBounds first last).high :=
  Faces.low_le_high_between ..

theorem low_le_high_of_faces? {symbols : List Symbol} {faces : Faces}
    (h : faces? symbols = some faces) : faces.low ≤ faces.high := by
  unfold faces? at h
  split at h
  · cases h
    decide
  · cases h
    decide
  · unfold bracketed? at h
    split at h
    · cases h
      exact low_le_high_ofBounds ..
    · split at h
      · cases h
        exact low_le_high_ofBounds ..
      · cases h
    · cases h
  · split at h
    · cases h
      exact low_le_high_ofBounds ..
    · cases h

theorem faces?_of_dice? {n : Int64} {symbols : List Symbol} {count : Nat} {faces : Faces}
    (h : dice? n symbols = some (.dice count faces)) : faces? symbols = some faces := by
  unfold dice? at h
  split at h
  · obtain ⟨f, hf, he⟩ := Option.map_eq_some_iff.mp h
    cases he
    exact hf
  · cases h

theorem low_le_high_of_ofText? {text : String} {count : Nat} {faces : Faces}
    (h : ofText? text = some (.dice count faces)) : faces.low ≤ faces.high := by
  obtain ⟨symbols, -, h⟩ := Option.bind_eq_some_iff.mp h
  unfold ofSymbols? at h
  split at h
  case h_1 => exact low_le_high_of_faces? (faces?_of_dice? h)
  case h_2 =>
      obtain ⟨n, -, hn⟩ := Option.bind_eq_some_iff.mp h
      exact low_le_high_of_faces? (faces?_of_dice? hn)
  case h_3 | h_4 =>
      obtain ⟨n, -, hn⟩ := Option.map_eq_some_iff.mp h
      cases hn
  all_goals cases h

theorem fit?_neg_of_word? {ds : List Decimal.Digit} {n : Int64} (h : word? ds = some n) :
    fit? (-n.toInt) = some (-n) := by
  have hn : n.toInt = Decimal.value ds := fit?_eq_some_iff.mp h
  have hfits : Fits (-n.toInt) := by
    have hle := (fits_toInt n).2
    exact ⟨by omega, by omega⟩
  rw [fit?, if_pos hfits, Int64.ofInt_neg, Int64.ofInt_toInt]

end Notation

namespace Pool

variable {σ : Type} (r : Roller σ)

def ofNotation? (source : String) (n : Notation) (s : σ) : Option (Pool × σ) :=
  match n with
  | .fixed value => some (literal value source, s)
  | .dice count faces => do
      let (d, s) ← Dice.create? r faces count s
      some (⟨source, .dice d⟩, s)

def stunt? (source : String) (s : σ) : Option (Pool × σ) := do
  let (d, s) ← Dice.create? r Faces.d6 stuntDice s
  some (⟨source, .stunt d⟩, s)

def read? (source data : String) (s : σ) : Option (Except Fault (Pool × σ)) :=
  match Notation.read data with
  | .ok n => (ofNotation? r source n s).map .ok
  | .error f => some (.error f)

def roll? (p : Pool) (s : σ) : Option (List Number × Pool × σ) :=
  match p.content with
  | .fixed value => some ([value], p, s)
  | .dice d => do
      let (vs, d, s) ← d.roll? r s
      some (vs.map .int, { p with content := .dice d }, s)
  | .stunt d => do
      let (vs, d, s) ← d.roll? r s
      some (vs.map .int, { p with content := .stunt d }, s)

variable {r}

def Ordered (p : Pool) : Prop :=
  ∀ count faces, denotation p = .dice count faces → faces.low ≤ faces.high

theorem roll?_eq {p : Pool} (h : p.Ordered) (s : σ) : p.roll? r s = some (p.roll r s) := by
  rcases p with ⟨source, value | d | d⟩
  · rfl
  · simp [roll?, Dice.roll?_eq (h _ _ rfl), roll]
  · simp [roll?, Dice.roll?_eq (h _ _ rfl), roll]

theorem stunt?_eq (source : String) (s : σ) : stunt? r source s = some (stunt r source s) := by
  simp [stunt?, Dice.create?_eq (show Faces.d6.low ≤ Faces.d6.high by decide), stunt]

theorem read?_eq (source data : String) (s : σ) :
    read? r source data s = some (read r source data s) := by
  rw [read?, read, Notation.read]
  cases hn : Notation.ofText? data with
  | none => rfl
  | some n =>
      cases n with
      | fixed value => rfl
      | dice count faces =>
          have hf := Notation.low_le_high_of_ofText? hn
          simp [ofNotation?, ofNotation, Dice.create?_eq hf, Except.map]

end Pool

end DiceTray

import DiceTray.Proofs.Json.Record
import DiceTray.Snapshot.Json

namespace DiceTray

open Json Decimal

def Number.Storable : Number → Prop
  | .int _ => True
  | .real x => x.isFinite = true ∧ double? (markedNumeral x) = some x

namespace Json

theorem strict_of_numeralOf? {n : Number} {m : Numeral} (h : numeralOf? n = some m) : m.Strict := by
  cases n with
  | int i =>
      cases h
      exact Numeral.strict_ofInt _
  | real x =>
      rw [numeralOf?] at h
      split at h
      case isTrue =>
        cases h
        exact strict_markedNumeral x
      case isFalse => cases h

end Json

namespace Snapshot

def scalarOf : Option Number → Scalar
  | none => .null
  | some n => ((numeralOf? n).map Scalar.number).getD .null

def diceFields (x : Scalar) (tooltip : String) : Fields :=
  [("type", .string "dice"), ("result", .scalar x), ("tooltip", .string tooltip)]

theorem toJson_dice (result : Option Number) (tooltip : String) :
    toJson (.dice result tooltip) = .record (diceFields (scalarOf result) tooltip) := by
  cases result with
  | none => rfl
  | some n =>
      rw [toJson, Value.number, scalarOf]
      cases numeralOf? n <;> rfl

theorem strict_scalarOf (result : Option Number) : (scalarOf result).Strict := by
  cases result with
  | none => exact .null
  | some n =>
      rw [scalarOf]
      cases hm : numeralOf? n with
      | none => exact .null
      | some m => exact .number (strict_of_numeralOf? hm)

theorem strict_toJson (s : Snapshot) : s.toJson.Strict := by
  cases s with
  | other =>
      refine Value.strict_record fun m hm => ?_
      obtain rfl : m = ("type", .string "other") := by simpa using hm
      exact Value.strict_scalar (.string _)
  | dice result tooltip =>
      rw [toJson_dice]
      refine Value.strict_record fun m hm => ?_
      simp only [diceFields, List.mem_cons, List.not_mem_nil, or_false] at hm
      rcases hm with rfl | rfl | rfl
      · exact Value.strict_scalar (.string _)
      · exact Value.strict_scalar (strict_scalarOf result)
      · exact Value.strict_scalar (.string _)

theorem read_text (s : Snapshot) :
    read s.text = match ofJson? s.toJson with
      | some x => .ok x
      | none => .error .invalidJson := by
  rw [read, decode, text, read?_text (strict_toJson s)]
  rfl

theorem isPlain_diceFields (x : Scalar) (tooltip : String) :
    (Value.record (diceFields x tooltip)).isPlain = Value.isPlainScalar x := by
  simp [diceFields, Value.record, Value.isPlain, Value.membersPlain, Value.string,
    Value.isPlainScalar, toString?_ofString]

theorem ofFields?_diceFields (x : Scalar) (tooltip : String) :
    ofFields? (diceFields x tooltip) =
      (Value.nullable? Value.number? (.scalar x)).map fun result => .dice result tooltip := by
  have htooltip : optional? Value.string? "" (diceFields x tooltip) "tooltip" = some tooltip :=
    Value.string?_string tooltip
  have hdistinct : Fields.distinct ["result", "tooltip"] (diceFields x tooltip) = true := rfl
  rw [ofFields?, if_pos hdistinct, htooltip]
  change (Value.nullable? Value.number? (.scalar x)).bind _ = _
  cases Value.nullable? Value.number? (.scalar x) <;> rfl

theorem ofJson?_diceFields (x : Scalar) (tooltip : String) :
    ofJson? (.record (diceFields x tooltip)) =
      if Value.isPlainScalar x = true then
        (Value.nullable? Value.number? (.scalar x)).map fun result => .dice result tooltip
      else none := by
  have hfields : fields? ["type"] (.record (diceFields x tooltip)) =
      some (diceFields x tooltip) := fields?_record rfl
  have htype : required? Value.string? (diceFields x tooltip) "type" = some "dice" :=
    Value.string?_string "dice"
  change (if (Value.record (diceFields x tooltip)).isPlain = true ∧ 1 ≤ maxDepth then
    (fields? ["type"] (.record (diceFields x tooltip))).bind _ else none) = _
  rw [isPlain_diceFields, hfields, Option.bind_some, htype, Option.bind_some, if_pos rfl,
    ofFields?_diceFields]
  exact if_congr (and_iff_left (by decide)) rfl rfl

theorem read_dice_text (result : Option Number) (tooltip : String) :
    read (Snapshot.dice result tooltip).text =
      if Value.isPlainScalar (scalarOf result) = true then
        match Value.nullable? Value.number? (.scalar (scalarOf result)) with
        | some result => .ok (.dice result tooltip)
        | none => .error .invalidJson
      else .error .invalidJson := by
  rw [read_text, toJson_dice, ofJson?_diceFields]
  by_cases hplain : Value.isPlainScalar (scalarOf result) = true
  · rw [if_pos hplain, if_pos hplain]
    cases Value.nullable? Value.number? (.scalar (scalarOf result)) <;> rfl
  · rw [if_neg hplain, if_neg hplain]

theorem read_dice_text_of_numeral {n : Number} {m : Numeral} (hm : numeralOf? n = some m)
    (tooltip : String) :
    read (Snapshot.dice (some n) tooltip).text =
      if (double? m).isSome = true then
        match number? m with
        | some n => .ok (.dice (some n) tooltip)
        | none => .error .invalidJson
      else .error .invalidJson := by
  rw [read_dice_text, scalarOf, hm]
  change (if (double? m).isSome = true then
    match (number? m).map some with
    | some result => _
    | none => _
    else _) = _
  cases number? m <;> rfl

theorem read_dice_text_int (i : Int64) (tooltip : String) :
    read (Snapshot.dice (some (.int i)) tooltip).text = .ok (.dice (some (.int i)) tooltip) := by
  have hfits := fits_toInt i
  have hword : i.toInt.natAbs < wordLimit := by
    unfold Fits at hfits
    unfold wordLimit
    omega
  rw [read_dice_text_of_numeral rfl, if_pos (isSome_double?_ofInt hword), number?_ofInt]

theorem read_dice_text_real {x : Float} (hx : x.isFinite = true) (tooltip : String) :
    read (Snapshot.dice (some (.real x)) tooltip).text =
      match double? (markedNumeral x) with
      | some y => .ok (.dice (some (.real y)) tooltip)
      | none => .error .invalidJson := by
  have hm : numeralOf? (.real x) = some (markedNumeral x) := if_pos hx
  rw [read_dice_text_of_numeral hm, number?_markedNumeral]
  cases double? (markedNumeral x) <;> rfl

theorem read_dice_text_not_finite {x : Float} (hx : ¬ x.isFinite = true) (tooltip : String) :
    read (Snapshot.dice (some (.real x)) tooltip).text = .ok (.dice none tooltip) := by
  have hnone : numeralOf? (.real x) = none := if_neg hx
  rw [read_dice_text, scalarOf, hnone]
  rfl

theorem read_dice_text_eq_iff (n : Number) (tooltip : String) :
    read (Snapshot.dice (some n) tooltip).text = .ok (.dice (some n) tooltip) ↔ n.Storable := by
  cases n with
  | int i => exact iff_of_true (read_dice_text_int i tooltip) trivial
  | real x =>
      by_cases hx : x.isFinite = true
      · rw [read_dice_text_real hx, Number.Storable, and_iff_right hx]
        cases double? (markedNumeral x) <;> simp
      · rw [read_dice_text_not_finite hx]
        exact iff_of_false nofun fun h => hx h.1

end Snapshot

end DiceTray

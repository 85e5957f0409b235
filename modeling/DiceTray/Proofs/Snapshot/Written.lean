import DiceTray.Proofs.Token.Reading

namespace DiceTray

open Json Decimal

namespace Snapshot

def result? : Snapshot → Option Number
  | .dice result _ => result
  | .other => none

theorem read_other_text : read other.text = .ok other := by
  have hplain : other.toJson.isPlain = true := by
    simp [toJson, Value.record, Value.isPlain, Value.membersPlain, Value.string,
      Value.isPlainScalar, toString?_ofString]
  have hfields : fields? ["type"] other.toJson = some [("type", .string "other")] :=
    fields?_record rfl
  have htype : required? Value.string? [("type", .string "other")] "type" = some "other" :=
    Value.string?_string "other"
  have hread : ofJson? other.toJson = some other := by
    change (if other.toJson.isPlain = true ∧ 1 ≤ maxDepth then
      (fields? ["type"] other.toJson).bind _ else none) = _
    rw [if_pos ⟨hplain, by decide⟩, hfields, Option.bind_some, htype]
    rfl
  rw [read_text, hread]

theorem read_dice_text_none (tooltip : String) :
    read (dice none tooltip).text = .ok (dice none tooltip) := by
  rw [read_dice_text]
  rfl

theorem exists_of_read_dice_text_real {x : Float} (hx : x.isFinite = true) {tooltip : String}
    {t : Snapshot} (h : read (dice (some (.real x)) tooltip).text = .ok t) :
    ∃ y, double? (markedNumeral x) = some y ∧ t = .dice (some (.real y)) tooltip := by
  rw [read_dice_text_real hx] at h
  split at h
  case h_1 y hy =>
    cases h
    exact ⟨y, hy, rfl⟩
  case h_2 => cases h

theorem read_text_eq_iff (s : Snapshot) :
    read s.text = .ok s ↔ ∀ n, s.result? = some n → n.Storable := by
  cases s with
  | other => exact iff_of_true read_other_text nofun
  | dice result tooltip =>
      cases result with
      | none => exact iff_of_true (read_dice_text_none tooltip) nofun
      | some n =>
          rw [read_dice_text_eq_iff]
          constructor
          · rintro hn _ ⟨⟩
            exact hn
          · exact fun h => h n rfl

theorem read_text_of_finite (s : Snapshot)
    (hfinite : ∀ x, s.result? = some (.real x) → x.isFinite = true) :
    (read s.text = .ok s ↔ ∀ x, s.result? = some (.real x) → ReadBack x) ∧
      ∀ t, read s.text = .ok t → t = s ∨ ∃ x y tooltip,
        s = .dice (some (.real x)) tooltip ∧ t = .dice (some (.real y)) tooltip := by
  constructor
  · rw [read_text_eq_iff]
    constructor
    · exact fun h x hx _ => (h _ hx).2
    · rintro h (i | x) hn
      · trivial
      · exact ⟨hfinite x hn, h x hn (hfinite x hn)⟩
  · intro t ht
    rcases s with ⟨_ | (i | x), tooltip⟩ | _
    · rw [read_dice_text_none] at ht
      exact .inl (Except.ok.inj ht).symm
    · rw [read_dice_text_int] at ht
      exact .inl (Except.ok.inj ht).symm
    · obtain ⟨y, -, rfl⟩ := exists_of_read_dice_text_real (hfinite x rfl) ht
      exact .inr ⟨x, y, tooltip, rfl, rfl⟩
    · rw [read_other_text] at ht
      exact .inl (Except.ok.inj ht).symm

theorem read_text_of_finite_integral :
    let zero : Snapshot := .dice (some (.real (-0.0))) "\"d6\" - d6\n[\\, 🎲]\t\x00"
    let power : Snapshot := .dice (some (.real (toDouble Int64.maxValue))) ""
    (∀ x, zero.result? = some (.real x) → x.isFinite = true) ∧
      (∀ x, power.result? = some (.real x) → x.isFinite = true) ∧
      read zero.text = .ok zero ∧ read power.text = .ok power := by
  intro zero power
  have hzero {x : Float} (hx : zero.result? = some (.real x)) : -0.0 = x :=
    Number.real.inj (Option.some.inj hx)
  have hpower {x : Float} (hx : power.result? = some (.real x)) : toDouble Int64.maxValue = x :=
    Number.real.inj (Option.some.inj hx)
  have hzeroFinite : ∀ x, zero.result? = some (.real x) → x.isFinite = true :=
    fun x hx => hzero hx ▸ by decide +kernel
  have hpowerFinite : ∀ x, power.result? = some (.real x) → x.isFinite = true :=
    fun x hx => hpower hx ▸ by decide +kernel
  exact ⟨hzeroFinite, hpowerFinite,
    (read_text_of_finite zero hzeroFinite).1.mpr fun x hx => hzero hx ▸ by decide +kernel,
    (read_text_of_finite power hpowerFinite).1.mpr fun x hx => hpower hx ▸ by decide +kernel⟩

end Snapshot

end DiceTray

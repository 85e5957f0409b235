import DiceTray.Proofs.Number.Finite
import DiceTray.Proofs.Snapshot.Reading
import DiceTray.Token.Json

namespace DiceTray

open Json Decimal

def Json.ReadBack (x : Float) : Prop := x.isFinite = true → double? (markedNumeral x) = some x

instance (x : Float) : Decidable (ReadBack x) := inferInstanceAs (Decidable (_ → _))

theorem Comparison.ofSymbol?_symbol (c : Comparison) : ofSymbol? c.symbol = some c := by
  cases c <;> decide

theorem TokenKind.ofSymbol?_symbol (k : TokenKind) : ofSymbol? k.symbol = some k := by
  cases k with
  | operator op => cases op <;> decide
  | modifier word => cases word <;> decide
  | _ => decide

namespace Condition

theorem strict_toJson (c : Condition) : c.toJson.Strict := by
  refine Value.strict_record fun m hm => ?_
  simp only [List.mem_cons, List.not_mem_nil, or_false] at hm
  rcases hm with rfl | rfl
  · exact Value.strict_scalar (.string _)
  · simp only [Value.number]
    split
    case h_1 n hn => exact Value.strict_scalar (.number (strict_of_numeralOf? hn))
    case h_2 => exact Value.strict_scalar .null

theorem double?_number (x : Float) :
    (Value.number (.real x)).double? =
      if x.isFinite then Json.double? (markedNumeral x) else none := by
  rw [Value.number, numeralOf?]
  by_cases hx : x.isFinite = true
  · rw [if_pos hx, if_pos hx]
    rfl
  · rw [if_neg hx, if_neg hx]
    rfl

theorem ofJson?_toJson (c : Condition) :
    ofJson? c.toJson = (Value.number (.real c.bound)).double?.map fun x => ⟨c.comparison, x⟩ := by
  have hfields : fields? ["operator", "comparer"] c.toJson = some
      [("operator", .string c.comparison.symbol), ("comparer", .number (.real c.bound))] :=
    fields?_record rfl
  rw [ofJson?, hfields, Option.bind_some]
  change (Value.word? (.string c.comparison.symbol)).bind _ = _
  rw [Value.word?_string, Option.bind_some, Comparison.ofSymbol?_symbol]
  change (Value.number (.real c.bound)).double?.bind _ = _
  rw [Option.map_eq_bind]
  rfl

theorem ofJson?_toJson_eq_iff (c : Condition) :
    ofJson? c.toJson = some c ↔ (Number.real c.bound).Storable := by
  rcases c with ⟨comparison, bound⟩
  rw [ofJson?_toJson, double?_number, Number.Storable]
  by_cases hx : bound.isFinite = true
  · rw [if_pos hx, and_iff_right hx]
    cases Json.double? (markedNumeral bound) <;> simp
  · rw [if_neg hx]
    exact iff_of_false (Option.some_ne_none _).symm fun h => hx h.1

theorem isFinite_of_ofJson? {v : Value} {c : Condition} (h : ofJson? v = some c) :
    c.bound.isFinite = true := by
  obtain ⟨fs, -, h⟩ := Option.bind_eq_some_iff.mp h
  obtain ⟨symbol, -, h⟩ := Option.bind_eq_some_iff.mp h
  obtain ⟨comparison, -, h⟩ := Option.bind_eq_some_iff.mp h
  obtain ⟨bound, hbound, h⟩ := Option.bind_eq_some_iff.mp h
  cases h
  obtain ⟨w, -, hw⟩ := Option.bind_eq_some_iff.mp hbound
  cases w with
  | scalar x =>
      cases x with
      | number n => exact isFinite_of_double? hw
      | _ => cases hw
  | _ => cases hw

end Condition

namespace Token

theorem strict_toJson (t : Token) : t.toJson.Strict := by
  refine Value.strict_record fun m hm => ?_
  simp only [List.mem_cons, List.not_mem_nil, or_false] at hm
  rcases hm with rfl | rfl | rfl | rfl
  · exact Value.strict_scalar (.string _)
  · exact Value.strict_scalar (.string _)
  · exact Value.strict_scalar (.string _)
  · refine Value.strict_array fun v hv => ?_
    obtain ⟨c, -, rfl⟩ := List.mem_map.mp hv
    exact c.strict_toJson

theorem ofJson?_toJson (t : Token) :
    ofJson? t.toJson =
      (Value.list? Condition.ofJson? (.array (t.conditions.map Condition.toJson))).map
        fun cs => { t with conditions := cs } := by
  have hfields : fields? ["type", "original", "data", "conditionals"] t.toJson = some
      [("type", .string t.kind.symbol), ("original", .string t.text), ("data", .string t.data),
        ("conditionals", .array (t.conditions.map Condition.toJson))] :=
    fields?_record rfl
  rw [ofJson?, hfields, Option.bind_some]
  change (Value.word? (.string t.kind.symbol)).bind _ = _
  rw [Value.word?_string, Option.bind_some, TokenKind.ofSymbol?_symbol]
  change (Value.string? (.string t.text)).bind _ = _
  rw [Value.string?_string, Option.bind_some]
  change (Value.string? (.string t.data)).bind _ = _
  rw [Value.string?_string, Option.bind_some, Option.map_eq_bind]
  rfl

theorem ofJson?_toJson_eq_iff (t : Token) :
    ofJson? t.toJson = some t ↔ ∀ c ∈ t.conditions, (Number.real c.bound).Storable := by
  have hlist : Value.list? Condition.ofJson? (.array (t.conditions.map Condition.toJson)) =
      some t.conditions ↔ ∀ c ∈ t.conditions, Condition.ofJson? c.toJson = some c :=
    Value.list?_array_eq_some_iff
  simp only [Condition.ofJson?_toJson_eq_iff] at hlist
  rw [ofJson?_toJson, ← hlist]
  cases Value.list? Condition.ofJson? (.array (t.conditions.map Condition.toJson)) with
  | none => exact iff_of_false nofun nofun
  | some cs =>
      rcases t with ⟨kind, text, data, conditions⟩
      simp

theorem isFinite_of_ofJson? {v : Value} {t : Token} (h : ofJson? v = some t) :
    ∀ c ∈ t.conditions, c.bound.isFinite = true := by
  intro c hc
  obtain ⟨fs, -, h⟩ := Option.bind_eq_some_iff.mp h
  obtain ⟨symbol, -, h⟩ := Option.bind_eq_some_iff.mp h
  obtain ⟨kind, -, h⟩ := Option.bind_eq_some_iff.mp h
  obtain ⟨text, -, h⟩ := Option.bind_eq_some_iff.mp h
  obtain ⟨data, -, h⟩ := Option.bind_eq_some_iff.mp h
  obtain ⟨conditions, hconditions, h⟩ := Option.bind_eq_some_iff.mp h
  cases h
  rw [optional?] at hconditions
  split at hconditions
  case h_1 w _ =>
    obtain ⟨u, hu⟩ := Value.exists_of_list? hconditions hc
    exact Condition.isFinite_of_ofJson? hu
  case h_2 =>
    cases hconditions
    cases hc

theorem decode_writeAll (ts : List Token) :
    decode (Value.list? ofJson?) (writeAll ts) = Value.list? ofJson? (.array (ts.map toJson)) := by
  have hstrict : (Value.array (ts.map toJson)).Strict := by
    refine Value.strict_array fun v hv => ?_
    obtain ⟨t, -, rfl⟩ := List.mem_map.mp hv
    exact t.strict_toJson
  rw [decode, writeAll, read?_text hstrict, Option.bind_some]

theorem readAll_eq_ok_iff {json : String} {ts : List Token} :
    readAll json = .ok ts ↔ decode (Value.list? ofJson?) json = some ts := by
  unfold readAll
  cases decode (Value.list? ofJson?) json <;> simp

theorem readAll_writeAll_eq_iff (ts : List Token) :
    readAll (writeAll ts) = .ok ts ↔
      ∀ t ∈ ts, ∀ c ∈ t.conditions, (Number.real c.bound).Storable := by
  rw [readAll_eq_ok_iff, decode_writeAll, Value.list?_array_eq_some_iff]
  simp only [ofJson?_toJson_eq_iff]

theorem isFinite_of_readAll {json : String} {ts : List Token} (h : readAll json = .ok ts) :
    ∀ t ∈ ts, ∀ c ∈ t.conditions, c.bound.isFinite = true := by
  intro t ht
  obtain ⟨v, -, hv⟩ := Option.bind_eq_some_iff.mp (readAll_eq_ok_iff.mp h)
  obtain ⟨w, hw⟩ := Value.exists_of_list? hv ht
  exact isFinite_of_ofJson? hw

theorem readAll_writeAll (ts : List Token) :
    (readAll (writeAll ts) = .ok ts ↔
      ∀ t ∈ ts, ∀ c ∈ t.conditions, (Number.real c.bound).Storable) ∧
    ((∀ t ∈ ts, ∀ c ∈ t.conditions, ReadBack c.bound) →
      ((∀ t ∈ ts, ∀ c ∈ t.conditions, c.bound.isFinite = true) → readAll (writeAll ts) = .ok ts) ∧
      ∀ json, readAll json = .ok ts → readAll (writeAll ts) = .ok ts) := by
  have hiff := readAll_writeAll_eq_iff ts
  refine ⟨hiff, fun hback => ?_⟩
  have hstored (hfinite : ∀ t ∈ ts, ∀ c ∈ t.conditions, c.bound.isFinite = true) :
      readAll (writeAll ts) = .ok ts :=
    hiff.mpr fun t ht c hc => ⟨hfinite t ht c hc, hback t ht c hc (hfinite t ht c hc)⟩
  exact ⟨hstored, fun json hjson => hstored (isFinite_of_readAll hjson)⟩

deriving instance DecidableEq for Condition, Token

theorem readAll_writeAll_other_spelling :
    let json := "[\x7b\"type\":\"kh\",\"original\":\"\\u00e9\\\"\",\"x\":1,\"conditionals\":" ++
      "[\x7b\"comparer\":5,\"operator\":\"=!\"\x7d,[\"=-\",-25e-1]]\x7d]"
    let ts : List Token :=
      [⟨.modifier .keepHigh, "é\"", "", [⟨.notEqual, 5.0⟩, ⟨.negate, -2.5⟩]⟩]
    readAll json = .ok ts ∧ (∀ t ∈ ts, ∀ c ∈ t.conditions, ReadBack c.bound) ∧
      readAll (writeAll ts) = .ok ts := by
  intro json ts
  have hjson : readAll json = .ok ts := readAll_eq_ok_iff.mpr (by decide +kernel)
  have hback : ∀ t ∈ ts, ∀ c ∈ t.conditions, ReadBack c.bound := by decide +kernel
  exact ⟨hjson, hback, ((readAll_writeAll ts).2 hback).2 json hjson⟩

end Token

end DiceTray

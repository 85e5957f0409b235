import DiceTray.Condition
import DiceTray.Json.Record

namespace DiceTray.Condition

open Json

def toJson (c : Condition) : Value :=
  .record [("operator", .string c.comparison.symbol), ("comparer", .number (.real c.bound))]

def ofJson? (v : Value) : Option Condition :=
  (fields? ["operator", "comparer"] v).bind fun fs => do
    let symbol ← required? Value.word? fs "operator"
    let comparison ← Comparison.ofSymbol? symbol
    let bound ← required? Value.double? fs "comparer"
    some ⟨comparison, bound⟩

end DiceTray.Condition

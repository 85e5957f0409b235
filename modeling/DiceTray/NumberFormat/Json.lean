import DiceTray.Fault
import DiceTray.Json.Record
import DiceTray.NumberFormat

namespace DiceTray

open Json

namespace NumberFormat

def charJson (c : Char) : Value := .string (String.ofList [c])

def toJson (f : NumberFormat) : Value :=
  .record
    [("grouping_separator", match f.grouping with
       | some c => charJson c
       | none => .null),
     ("decimal_separator", charJson f.point)]

def ofJson? (v : Value) : Option NumberFormat :=
  (fields? ["grouping_separator", "decimal_separator"] v).bind fun fs => do
    let grouping ←
      optional? (Value.nullable? Value.char?) english.grouping fs "grouping_separator"
    let point ← optional? Value.char? english.point fs "decimal_separator"
    some ⟨grouping, point⟩

end NumberFormat

namespace DisplayOptions

def toJson (o : DisplayOptions) : Value :=
  .record
    [("number_format", o.numberFormat.toJson), ("display_results_inline", .bool o.inline)]

def ofJson? (v : Value) : Option DisplayOptions :=
  (fields? ["number_format", "display_results_inline"] v).bind fun fs => do
    let numberFormat ← optional? NumberFormat.ofJson? .english fs "number_format"
    let inline ← optional? Value.bool? false fs "display_results_inline"
    some ⟨numberFormat, inline⟩

def read (s : String) : Except Fault DisplayOptions :=
  match decode ofJson? s with
  | some o => .ok o
  | none => .error .invalidJson

end DisplayOptions

end DiceTray

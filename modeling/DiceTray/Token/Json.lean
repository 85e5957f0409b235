import DiceTray.Condition.Json
import DiceTray.Token

namespace DiceTray.Token

open Json

def toJson (t : Token) : Value :=
  .record
    [("type", .string t.kind.symbol), ("original", .string t.text), ("data", .string t.data),
     ("conditionals", .array (t.conditions.map Condition.toJson))]

def writeAll (ts : List Token) : String := (Value.array (ts.map toJson)).text

def ofJson? (v : Value) : Option Token :=
  (fields? ["type", "original", "data", "conditionals"] v).bind fun fs => do
    let symbol ← required? Value.word? fs "type"
    let kind ← TokenKind.ofSymbol? symbol
    let text ← required? Value.string? fs "original"
    let data ← optional? Value.string? "" fs "data"
    let conditions ← optional? (Value.list? Condition.ofJson?) [] fs "conditionals"
    some ⟨kind, text, data, conditions⟩

def readAll (s : String) : Except Fault (List Token) :=
  match decode (Value.list? ofJson?) s with
  | some ts => .ok ts
  | none => .error .invalidJson

end DiceTray.Token

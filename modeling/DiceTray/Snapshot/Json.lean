import DiceTray.Fault
import DiceTray.Json.Record
import DiceTray.Snapshot

namespace DiceTray

open Json

namespace Json.Value

def isPlainScalar : Scalar → Bool
  | .number n => (Json.double? n).isSome
  | .string t => t.toString?.isSome
  | _ => true

mutual

def isPlain : Value → Bool
  | .scalar x => isPlainScalar x
  | .array vs => itemsPlain vs
  | .object ms => membersPlain ms

def itemsPlain : List Value → Bool
  | [] => true
  | v :: vs => isPlain v && itemsPlain vs

def membersPlain : List (Json.Text × Value) → Bool
  | [] => true
  | (name, v) :: ms => name.toString?.isSome && isPlain v && membersPlain ms

end

end Json.Value

namespace Snapshot

def toJson : Snapshot → Value
  | .other => .record [("type", .string "other")]
  | .dice result tooltip =>
      .record
        [("type", .string "dice"),
         ("result", match result with
           | some n => .number n
           | none => .null),
         ("tooltip", .string tooltip)]

def text (s : Snapshot) : String := s.toJson.text

def maxDepth : Nat := 127

def ofFields? (fs : Fields) : Option Snapshot :=
  if fs.distinct ["result", "tooltip"] then do
    let result ← optional? (Value.nullable? Value.number?) none fs "result"
    let tooltip ← optional? Value.string? "" fs "tooltip"
    some (.dice result tooltip)
  else none

def ofItems? (kind : String) (items : List Value) : Option Snapshot :=
  if kind = "dice" then
    if items.isEmpty then none else (fields? ["result", "tooltip"] (.array items)).bind ofFields?
  else if items.isEmpty then some .other
  else none

def ofJson? (v : Value) : Option Snapshot :=
  if v.isPlain ∧ v.depth ≤ maxDepth then
    match v with
    | .array (tag :: items) => tag.string?.bind fun kind => ofItems? kind items
    | .object _ =>
        (fields? ["type"] v).bind fun fs =>
          (required? Value.string? fs "type").bind fun kind =>
            if kind = "dice" then ofFields? fs else some .other
    | _ => none
  else none

def read (s : String) : Except Fault Snapshot :=
  match decode ofJson? s with
  | some x => .ok x
  | none => .error .invalidJson

end Snapshot

end DiceTray

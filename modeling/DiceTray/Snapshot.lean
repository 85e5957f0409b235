import DiceTray.Number

namespace DiceTray

inductive Snapshot where
  | dice (result : Option Number) (tooltip : String)
  | other

end DiceTray

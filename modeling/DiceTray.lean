import DiceTray.Main
import DiceTray.NumberFormat.Json
import DiceTray.Proofs.Pool.Operation
import DiceTray.Proofs.Tray.Exact
import DiceTray.Proofs.Tray.Kept
import DiceTray.Proofs.Tray.Notices
import DiceTray.Proofs.Tray.Rolls
import DiceTray.Proofs.Tray.Session
import DiceTray.Proofs.Tray.Value
import DiceTray.Snapshot.Json
import DiceTray.Proofs.Hand.Marks
import DiceTray.Proofs.Pool.Since
import DiceTray.Proofs.Hand.Places
import DiceTray.Proofs.Pool.Places
import DiceTray.Proofs.Tray.Alike
import DiceTray.Proofs.Tray.Places
import DiceTray.Proofs.Tray.Table
import DiceTray.Proofs.Notation.Grammar
import DiceTray.Proofs.Tray.Tooltip
import DiceTray.Proofs.Tray.Stored
import DiceTray.Proofs.Tray.Shown
import DiceTray.Proofs.Tray.Stunts
import DiceTray.Proofs.Number.Finite
import DiceTray.Proofs.Token.Reading
import DiceTray.Proofs.Hand.Blocks
import DiceTray.Proofs.Hand.Ranked
import DiceTray.Proofs.Snapshot.Written
import DiceTray.Proofs.Hand.Rounds
import DiceTray.Proofs.Pool.Score
import DiceTray.Proofs.Notation.Printed
import DiceTray.Proofs.Pool.Shuffled
import DiceTray.Proofs.Pool.OnFaces
import DiceTray.Proofs.Pool.Doubles
import DiceTray.Proofs.Pool.Rearranged
import DiceTray.Proofs.Pool.Extremes
import DiceTray.Proofs.Pool.Sheet
import DiceTray.Proofs.NumberFormat.Grouped
import DiceTray.Proofs.Number.Order
import DiceTray.Proofs.Hand.Legible
import DiceTray.Proofs.Repl.Answers

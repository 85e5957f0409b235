import DiceTray.Repl

namespace DiceTray.Repl

def seed : IO Nat := do
  let bytes ← IO.getRandomBytes 8
  return bytes.foldl (fun n b => n * 256 + b.toNat) 0

def nextLine? (stdin : IO.FS.Stream) : IO (Option String) := do
  let line ← try stdin.getLine catch _ => pure ""
  return (lines line).head?

partial def serve (stdin stdout stderr : IO.FS.Stream) (opts : DisplayOptions) (g : StdGen) :
    IO Unit := do
  stdout.putStr prompt
  stdout.flush
  match ← nextLine? stdin with
  | none => return
  | some line =>
      let (reply, g) := answer Roller.uniform opts line g
      for problem in reply.problems do
        stderr.putStrLn problem
      for text in reply.shown do
        stdout.putStrLn text
      serve stdin stdout stderr opts g

end DiceTray.Repl

def main : IO Unit := do
  let opts := DiceTray.Repl.options (← IO.getEnv "DICE_LOCALE")
  let g := mkStdGen (← DiceTray.Repl.seed)
  DiceTray.Repl.serve (← IO.getStdin) (← IO.getStdout) (← IO.getStderr) opts g

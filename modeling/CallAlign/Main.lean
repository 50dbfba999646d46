import CallAlign.CommandLine.Snapshot

/-!
The program: its words come from the command line and the world they are carried out in from
standard input.
-/

open CallAlign.CommandLine in
/-- Carries out a command line and prints what it leaves.  A failure that has no message ends in
code 1. -/
def main (args : List String) : IO UInt32 := do
  let text ← (← IO.getStdin).readToEnd
  match execute (Snapshot.read text) args with
  | .ok exit =>
    (← IO.getStdout).putStr exit.out
    (← IO.getStderr).putStr exit.err
    return UInt32.ofNat exit.code
  | .error _ =>
    (← IO.getStderr).putStr "the run ended early\n"
    return 1

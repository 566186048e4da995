import Propositional.Command.Conversion

/-!
# The command

Reads the arguments and, where these hold no formula, the standard input; prints what the run
leaves. The log goes to the standard error stream. The environment variable `RUST_LOG` chooses how
much of it is written, errors only if it is not set.
-/

open Propositional

/-- Runs the command. -/
def main (arguments : List String) : IO UInt32 := do
  let threshold := Severity.ofName ((← IO.getEnv "RUST_LOG").getD "")
  let input ← match Command.Request.ofArguments arguments with
    | .convert _ [] => (← IO.getStdin).readBinToEnd
    | _ => pure ByteArray.empty
  let outcome := Command.run arguments input
  (← IO.getStdout).putStr outcome.output
  for line in outcome.log threshold do
    (← IO.getStderr).putStrLn ("[" ++ line)
  return outcome.code.toUInt32

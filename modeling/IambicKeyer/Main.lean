/-
  The command line of the bench program.

  The reports go to the standard error stream, one to a line, each with its level and where it
  comes from.  How much is shown can be chosen with the environment variable `KEYER_LOG`.
-/
import IambicKeyer.Program

open IambicKeyer in
/-- Runs the program and prints what is to be shown. -/
def main (args : List String) : IO UInt32 := do
  let wanted := (← IO.getEnv "KEYER_LOG").bind Verbosity.ofName?
  let outcome := Program.run args
  for r in Program.shown (wanted.getD Program.standardVerbosity) outcome do
    IO.eprintln r.line
  return outcome.exitCode.toUInt32

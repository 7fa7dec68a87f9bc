import SqlQuery.CommandLine

/-!
# The program

Reads the standard input only when no query is among the arguments.
-/

open SqlQuery in
def main (args : List String) : IO UInt32 := do
  let environment ← IO.getEnv "QUILL_SQL_DIALECT"
  let outcome ← match CommandLine.read args environment with
    | .error stop => pure stop.outcome
    | .ok task =>
      match task.query with
      | some query => pure (task.perform query)
      | none => pure (task.perform (← (← IO.getStdin).readToEnd))
  (← IO.getStdout).putStr outcome.output
  (← IO.getStderr).putStr outcome.errors
  return outcome.exitCode.toUInt32

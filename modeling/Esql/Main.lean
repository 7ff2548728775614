import Esql.CommandLine

/-!
# The program

Reads a query from the standard input and writes what is found to the standard output. A problem
goes to the standard error output and makes the program fail.
-/

namespace Esql.CommandLine

/-- All lines of a stream. -/
partial def readAll (stream : IO.FS.Stream) (before : String) : IO String := do
  let line ← stream.getLine
  if line.isEmpty then pure before else readAll stream (before ++ line)

/-- The text of a file, or why it cannot be read. -/
def readFile (file : String) : IO (Except String String) := do
  try
    pure (.ok (← IO.FS.readFile file))
  catch problem =>
    pure (.error problem.toString)

/-- The variables of the environment that are settings. -/
def environment : IO (List (String × String)) :=
  ["ESQL_LICENSE", "ESQL_CACHE_CAPACITY", "ESQL_CACHE_TTL_SECS", "ESQL_SCHEMA"].filterMapM
    fun name => do pure ((← IO.getEnv name).map fun value => (name, value))

end Esql.CommandLine

open Esql in
def main (arguments : List String) : IO UInt32 := do
  let entries ← CommandLine.environment
  let settings := Settings.ofEnvironment fun name => entries.lookup name
  let query := do CommandLine.readAll (← IO.getStdin) ""
  match ← CommandLine.run query CommandLine.readFile settings arguments with
  | .ok output =>
      (← IO.getStdout).putStr output
      pure 0
  | .error problem =>
      (← IO.getStderr).putStrLn problem.message
      pure 1

import Replica.CommandLine.Run

/-!
# The program

Reads the file that the arguments name, and writes the answer.
-/

namespace Replica.CommandLine

/-- The text of a file, if it can be read. -/
def readText (path : String) : IO (Option String) := do
  try
    return some (← IO.FS.readFile path)
  catch _ =>
    return none

/-- Answers the arguments. -/
def execute (args : List String) : IO Outcome := do
  match read? args with
  | none => return misuse
  | some request =>
    match request.path? with
    | none => return request.answer none
    | some path => return request.answer (← readText path)

end Replica.CommandLine

/-- The program `relodb`. -/
def main (args : List String) : IO UInt32 := do
  let outcome ← Replica.CommandLine.execute args
  IO.print outcome.output
  if !outcome.complaint.isEmpty then
    IO.eprintln ("Error: " ++ outcome.complaint)
  return UInt32.ofNat outcome.code

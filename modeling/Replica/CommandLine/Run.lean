import Replica.CommandLine.Arguments

/-!
# The command line

`Request.answer` answers what the arguments ask for with a text and an exit code, given what the
file that they name holds. Wrong arguments have the code two, a fault that ends the program the code
101, and every other failure the code one. A replay that does not end as its scenario expects counts
as a failure although its report is written.
-/

namespace Replica.CommandLine

/-- The name of the program. -/
def programName : String := "relodb"

/-- The version of the program. -/
def release : String := "0.4.0"

/-- What the program answers. -/
structure Outcome where
  /-- The exit code. -/
  code : Nat
  /-- What is written as the answer. -/
  output : String
  /-- What is said about a failure. -/
  complaint : String := ""
  deriving DecidableEq

/-- Lines, each ended. -/
def unlines (l : List String) : String := String.join (l.map (· ++ "\n"))

/-- A page of help. -/
def Page.text : Page → String
  | root => unlines ["CLI tools for relodb replication", "",
      "Usage: relodb [OPTIONS] <COMMAND>", "",
      "Commands:",
      "  replay   Replay an oplog scenario into an in-memory replica",
      "  version  Show version information",
      "  help     Print this message or the help of the given subcommand(s)", "",
      "Options:",
      "  -v, --verbose  Enable verbose output",
      "  -h, --help     Print help",
      "  -V, --version  Print version"]
  | replay => unlines ["Replay an oplog scenario into an in-memory replica", "",
      "Usage: relodb replay [OPTIONS] <SCENARIO>", "",
      "Arguments:",
      "  <SCENARIO>  Scenario file (JSON)", "",
      "Options:",
      "  -c, --concurrent",
      "          Apply batches with the concurrent executor",
      "  -v, --verbose",
      "          Enable verbose output",
      "  -w, --workers <WORKERS>",
      "          Worker threads for the concurrent executor",
      "  -r, --reapply",
      "          Replay as recovery does: lenient matching, updates as upserts",
      "  -m, --max-batch-size <MAX_BATCH_SIZE>",
      "          Largest batch handed to the executor [default: 1000]",
      "      --fetch-size <FETCH_SIZE>",
      "          Entries returned per fetch [default: 100]",
      "  -f, --format <FORMAT>",
      "          Output format (text, json) [default: text]",
      "  -h, --help",
      "          Print help"]
  | version => unlines ["Show version information", "",
      "Usage: relodb version [OPTIONS]", "",
      "Options:",
      "  -v, --verbose  Enable verbose output",
      "  -h, --help     Print help"]
  | help => unlines ["Print this message or the help of the given subcommand(s)", "",
      "Usage: relodb help [COMMAND]...", "",
      "Arguments:",
      "  [COMMAND]...  Print help for the subcommand(s)"]

/-- A report in the form that was asked for. -/
def write (format : Format) (r : Report) : String :=
  match format with
  | .json => unlines [r.toJson.renderIndented]
  | _ => unlines r.lines

/-- The exit code for an error. -/
def exitCode : ScenarioError → Nat
  | .overcrowded => 101
  | _ => 1

/-- Replays the scenario of a file. -/
def replay (path : String) (text : Option String) (options : ReplayOptions) (format : Format) :
    Outcome :=
  match format with
  | .unknown name =>
    ⟨1, "", "unknown output format '" ++ name ++ "' (expected text or json)"⟩
  | _ =>
    match (Scenario.ofFile path text).bind (·.replay options) with
    | .error e => ⟨exitCode e, "", e.message⟩
    | .ok report =>
      if report.passed then { code := 0, output := write format report }
      else
        let reason := report.differences.headD "unexpected outcome"
        ⟨1, write format report, "scenario '" ++ report.name ++ "' failed: " ++ reason⟩

/-- The file that has to be read for a request. -/
def Request.path? : Request → Option String
  | replay path _ _ => some path
  | _ => none

/-- Answers a request, `text` being what its file holds. -/
def Request.answer (text : Option String) : Request → Outcome
  | replay path options format => CommandLine.replay path text options format
  | versions =>
    { code := 0
      output := unlines [programName ++ " CLI v" ++ release,
        programName ++ " replication v" ++ release] }
  | programVersion =>
    { code := 0, output := unlines [programName ++ " " ++ release] }
  | help page => { code := 0, output := page.text }

/-- The answer to wrong arguments. -/
def misuse : Outcome :=
  ⟨2, "", "wrong arguments; see '" ++ programName ++ " --help'"⟩

end Replica.CommandLine

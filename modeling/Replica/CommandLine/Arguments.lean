import Replica.Scenario.Replay

/-!
# Arguments

A level of the command line has options and words. An option is written `--name`, or `-n` with its
letter; letters may be joined. A value stands behind `=`, directly behind the letter, or in the next
argument, which then must not look like an option. Behind `--` all arguments are words. `read?`
turns arguments into what is asked for, and refuses what is unknown, incomplete or said twice.
-/

namespace Replica.CommandLine

/-- An option. -/
inductive Opt where
  /-- Asks for more messages. -/
  | verbose
  /-- Asks for help. -/
  | help
  /-- Asks for the version. -/
  | version
  /-- Replays on a worker pool. -/
  | concurrent
  /-- Sets the number of workers. -/
  | workers
  /-- Replays as over cloned data. -/
  | reapply
  /-- Sets the batch size. -/
  | maxBatchSize
  /-- Sets the size of a fetch. -/
  | fetchSize
  /-- Chooses the form of the report. -/
  | format
  deriving DecidableEq

namespace Opt

/-- The name of an option. -/
def name : Opt → String
  | verbose => "verbose"
  | help => "help"
  | version => "version"
  | concurrent => "concurrent"
  | workers => "workers"
  | reapply => "reapply"
  | maxBatchSize => "max-batch-size"
  | fetchSize => "fetch-size"
  | format => "format"

/-- The letter of an option. -/
def letter? : Opt → Option Char
  | verbose => some 'v'
  | help => some 'h'
  | version => some 'V'
  | concurrent => some 'c'
  | workers => some 'w'
  | reapply => some 'r'
  | maxBatchSize => some 'm'
  | fetchSize => none
  | format => some 'f'

/-- Whether an option takes a value. -/
def takesValue : Opt → Bool
  | workers | maxBatchSize | fetchSize | format => true
  | _ => false

end Opt

/-- The options at the start of the command line. -/
def rootOptions : List Opt := [.verbose, .help, .version]

/-- The options of the command that replays a scenario. -/
def replayOptions : List Opt :=
  [.concurrent, .verbose, .workers, .reapply, .maxBatchSize, .fetchSize, .format, .help]

/-- The options of the command that shows the version. -/
def versionOptions : List Opt := [.verbose, .help]

/-- A part of the command line. -/
inductive Item where
  /-- An option, and its value if it takes one. -/
  | opt (o : Opt) (value : String)
  /-- A word, and the arguments behind it. -/
  | word (w : String) (rest : List String)
  /-- A word behind `--`, which never names a command. -/
  | plain (w : String)
  /-- Something that is refused. -/
  | bad
  deriving DecidableEq

/-- Whether an argument is written like an option. -/
def looksLikeOption (arg : List Char) : Bool :=
  match arg with
  | '-' :: _ :: _ => true
  | _ => false

/-- The parts of the arguments on a level with the given options. -/
def items (options : List Opt) : List String → List Item
  | [] => []
  | arg :: rest =>
    match arg.toList with
    | ['-', '-'] => rest.map .plain
    | '-' :: '-' :: chars =>
      let name := String.ofList (chars.takeWhile (· ≠ '='))
      let attached := chars.dropWhile (· ≠ '=')
      match options.find? fun o => o.name == name with
      | none => [.bad]
      | some o =>
        match o.takesValue, attached with
        | false, [] => .opt o "" :: items options rest
        | false, _ :: _ => [.bad]
        | true, _ :: value => .opt o (String.ofList value) :: items options rest
        | true, [] =>
          match rest with
          | [] => [.bad]
          | value :: rest =>
            if looksLikeOption value.toList then [.bad] else .opt o value :: items options rest
    | '-' :: c :: chars => letters (c :: chars) rest
    | _ => .word arg rest :: items options rest
termination_by args => (args.length, 0)
where
  /-- The parts of joined letters and of the arguments behind them. -/
  letters (joined : List Char) (rest : List String) : List Item :=
    match joined with
    | [] => items options rest
    | c :: chars =>
      match options.find? fun o => o.letter? == some c with
      | none => [.bad]
      | some o =>
        if !o.takesValue then .opt o "" :: letters chars rest
        else
          match chars with
          | '=' :: value => .opt o (String.ofList value) :: items options rest
          | _ :: _ => .opt o (String.ofList chars) :: items options rest
          | [] =>
            match rest with
            | [] => [.bad]
            | value :: rest =>
              if looksLikeOption value.toList then [.bad]
              else .opt o value :: items options rest
  termination_by (rest.length, joined.length + 1)

/-- A natural number of 64 bits, with or without a plus in front. -/
def number? (text : String) : Option Nat :=
  let digits := match text.toList with
    | '+' :: digits => digits
    | digits => digits
  if digits.isEmpty || !digits.all Char.isDigit then none
  else
    let n := digits.foldl (fun n c => n * 10 + (c.toNat - '0'.toNat)) 0
    if n < Nat.pow 2 64 then some n else none

/-- The form of a report. -/
inductive Format where
  /-- Lines of text. -/
  | text
  /-- A value. -/
  | json
  /-- Anything else. -/
  | unknown (name : String)
  deriving DecidableEq

/-- The form with a name. -/
def Format.ofText : String → Format
  | "text" => text
  | "json" => json
  | other => unknown other

/-- A page of help. -/
inductive Page where
  /-- About the whole command line. -/
  | root
  /-- About the command that replays a scenario. -/
  | replay
  /-- About the command that shows the version. -/
  | version
  /-- About the command that shows help. -/
  | help
  deriving DecidableEq

/-- What is asked for. -/
inductive Request where
  /-- Replaying the scenario of a file. -/
  | replay (path : String) (options : ReplayOptions) (format : Format)
  /-- The versions of the command line and the engine. -/
  | versions
  /-- The version of the program. -/
  | programVersion
  /-- Help. -/
  | help (page : Page)

/-- What was read of the arguments of a replay. -/
structure ReplayArguments where
  /-- The path, if it was read. -/
  path : Option String := none
  /-- The options. -/
  options : ReplayOptions := {}
  /-- The form of the report. -/
  format : Format := .text
  /-- The options that were read. -/
  seen : List Opt := []

namespace ReplayArguments

/-- Takes an option into account. -/
def set? (a : ReplayArguments) (o : Opt) (value : String) : Option ReplayArguments :=
  let a := { a with seen := o :: a.seen }
  let x := a.options
  match o with
  | .concurrent => some { a with options := { x with concurrent := true } }
  | .reapply => some { a with options := { x with reapplying := true } }
  | .workers => (number? value).map fun n => { a with options := { x with workers := some n } }
  | .maxBatchSize => (number? value).map fun n => { a with options := { x with maxBatchSize := n } }
  | .fetchSize => (number? value).map fun n => { a with options := { x with fetchSize := n } }
  | .format => some { a with format := .ofText value }
  | .verbose | .help | .version => some a

/-- Reads the arguments of a replay. -/
def read? : ReplayArguments → List Item → Option Request
  | a, [] => a.path.map fun path => .replay path a.options a.format
  | _, .bad :: _ => none
  | _, .opt .help _ :: _ => some (.help .replay)
  | a, .opt o value :: rest =>
    if a.seen.contains o then none
    else
      match a.set? o value with
      | none => none
      | some a => read? a rest
  | a, .word w _ :: rest | a, .plain w :: rest =>
    if a.path.isSome || w.isEmpty then none else read? { a with path := some w } rest

end ReplayArguments

/-- Reads the arguments of the command that shows the version. -/
def readVersion? : (verbose : Bool) → List Item → Option Request
  | _, [] => some .versions
  | _, .opt .help _ :: _ => some (.help .version)
  | false, .opt .verbose _ :: rest => readVersion? true rest
  | _, _ :: _ => none

/-- Reads the arguments of the command that shows help: the name of a command, if any. -/
def readHelp? : List String → Option Request
  | [] => some (.help .root)
  | ["replay"] => some (.help .replay)
  | ["version"] => some (.help .version)
  | ["help"] => some (.help .help)
  | _ => none

/-- Reads the command line: options, then a command with its arguments. -/
def readRoot? : (verbose : Bool) → List Item → Option Request
  | _, .opt .help _ :: _ => some (.help .root)
  | _, .opt .version _ :: _ => some .programVersion
  | false, .opt .verbose _ :: rest => readRoot? true rest
  | _, .word "replay" rest :: _ => ReplayArguments.read? {} (items replayOptions rest)
  | _, .word "version" rest :: _ => readVersion? false (items versionOptions rest)
  | _, .word "help" rest :: _ => readHelp? rest
  | _, _ => none

/-- What the arguments ask for; nothing if they are wrong. -/
def read? (args : List String) : Option Request :=
  readRoot? false (items rootOptions args)

end Replica.CommandLine

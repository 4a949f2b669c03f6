import ContractML.Session.Report

/-!
# Commands

The two commands of the command line: running a source file, and dumping its syntax tree. A command
is a function of the contents of the file; it gives what is printed and the exit code.

## Main definitions

* `Command`, `Command.ofWords?` — the commands, and how they are written.
* `Command.execute` — what a command prints.
-/

namespace ContractML

/-- The form of what is printed. -/
inductive Format where
  /-- Text to read. -/
  | pretty
  /-- A JSON document. -/
  | json
  deriving DecidableEq, Repr, Inhabited

/-- A command with its options. -/
inductive Command where
  /-- Runs a file, with or without contracts. -/
  | run (file : String) (contracts : Bool) (format : Format)
  /-- Dumps the syntax tree of a file, before or after the monitor. -/
  | parse (file : String) (monitored : Bool) (format : Format)
  deriving DecidableEq, Repr, Inhabited

/-- The file that a command reads. -/
def Command.file : Command → String
  | run file _ _ => file
  | parse file _ _ => file

namespace Command

/-- Options as they are collected from a command line. -/
structure Options where
  /-- The file. -/
  file? : Option String
  /-- Whether `--no-contracts` was given. -/
  noContracts : Bool
  /-- Whether `--monitored` was given. -/
  monitored : Bool
  /-- The value of `--format`. -/
  format : Format
  deriving DecidableEq, Repr, Inhabited

/-- The format that a word names. -/
def formatOfWord? : String → Option Format
  | "pretty" => some .pretty
  | "json" => some .json
  | _ => none

/-- Collects the options of a command line; none if a word cannot be used. -/
def collect? : Options → List String → Option Options
  | o, [] => some o
  | o, "--no-contracts" :: ws => collect? { o with noContracts := true } ws
  | o, "--monitored" :: ws => collect? { o with monitored := true } ws
  | o, "--format" :: w :: ws => do collect? { o with format := ← formatOfWord? w } ws
  | o, w :: ws =>
    if w.startsWith "-" || o.file?.isSome then none
    else collect? { o with file? := some w } ws

/-- The command that a command line asks for. -/
def ofWords? : List String → Option Command
  | "run" :: ws => do
    let o ← collect? ⟨none, false, false, .pretty⟩ ws
    if o.monitored then none else return .run (← o.file?) (!o.noContracts) o.format
  | "parse" :: ws => do
    let o ← collect? ⟨none, false, false, .pretty⟩ ws
    if o.noContracts then none else return .parse (← o.file?) o.monitored o.format
  | _ => none

/-- How the command line is used. -/
def usage : String :=
  "Usage: run FILE [--no-contracts] [--format pretty|json]\n" ++
    "       parse FILE [--monitored] [--format pretty|json]"

end Command

/-- What a command prints, and its exit code. -/
structure Exit where
  /-- The exit code. -/
  code : UInt32
  /-- What is printed to standard output. -/
  stdout : String
  /-- What is printed to standard error. -/
  stderr : String
  deriving DecidableEq, Repr, Inhabited

/-- The exit of a command that fails with a message. -/
def Exit.failure (message : String) : Exit := ⟨1, "", "Error: " ++ message ++ "\n"⟩

/-- The greatest size of a source file in bytes. -/
def maxSourceSize : Nat := 1000000

/-- Why a source file cannot be used. -/
inductive SourceError where
  /-- There is no such file. -/
  | missing
  /-- The file is not UTF-8 text. -/
  | notText
  /-- The file is too large. -/
  | tooLarge (size : Nat)
  deriving DecidableEq, Repr, Inhabited

/-- The text of an error about a source file. A cause stands on lines of its own. -/
def SourceError.message (file : String) : SourceError → String
  | missing =>
    "failed to read `" ++ file ++ "`\n\nCaused by:\n    No such file or directory (os error 2)"
  | notText =>
    "failed to read `" ++ file ++ "`\n\nCaused by:\n    stream did not contain valid UTF-8"
  | tooLarge size => "source file exceeds 1MB limit (" ++ toString size ++ " bytes)"

/-- The source text that a file holds. -/
def readSource (contents : Option ByteArray) : Except SourceError String :=
  match contents with
  | none => .error .missing
  | some bytes =>
    match String.fromUTF8? bytes with
    | none => .error .notText
    | some source =>
      if source.utf8ByteSize ≤ maxSourceSize then .ok source
      else .error (.tooLarge source.utf8ByteSize)

/-- Runs a source text. The exit code tells whether a statement failed. -/
def runCommand (file source : String) (contracts : Bool) (format : Format) : Exit :=
  let s := (Session.start contracts).run source
  let code := if s.failures.isEmpty then 0 else 1
  let text := match format with
    | .pretty =>
      let lines := s.results.flatMap (StatementResult.lines file source.toList)
      String.join (lines.map (· ++ "\n"))
    | .json => s.report.sorted.pretty ++ "\n"
  ⟨code, text, ""⟩

/-- The text of a syntax error in a file with the given source. -/
def SyntaxError.report (file source : String) (e : SyntaxError) : String :=
  let p := Position.ofOffset source.toList e.span.start
  file ++ ":" ++ toString p.line ++ ":" ++ toString p.column ++ ": syntax error: " ++ e.message

/-- Dumps the syntax tree of a source text. -/
def parseCommand (file source : String) (monitored : Bool) (format : Format) : Exit :=
  match Program.parse source with
  | .error e => .failure (e.report file source)
  | .ok p =>
    let p := if monitored then p.monitor else p
    let text := match format with
      | .pretty => p.outline.render
      | .json => p.document.pretty
    ⟨0, text ++ "\n", ""⟩

/-- What a command prints, given the contents of its file. -/
def Command.execute (c : Command) (contents : Option ByteArray) : Exit :=
  match readSource contents with
  | .error e => .failure (e.message c.file)
  | .ok source =>
    match c with
    | .run file contracts format => runCommand file source contracts format
    | .parse file monitored format => parseCommand file source monitored format

end ContractML

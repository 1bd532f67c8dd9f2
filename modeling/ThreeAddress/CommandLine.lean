import ThreeAddress.Loading
import ThreeAddress.Run

namespace ThreeAddress.CommandLine

open Text

inductive FileOption
  | source
  | input
  deriving DecidableEq

/-- The files that are named; the standard input stands in for one that is not. -/
structure Config where
  source : Option String := none
  input : Option String := none
  deriving DecidableEq

namespace Config

def get (c : Config) : FileOption → Option String
  | .source => c.source
  | .input => c.input

def put (c : Config) (path : String) : FileOption → Config
  | .source => { c with source := some path }
  | .input => { c with input := some path }

end Config

def usage : String :=
  "Runs an IPPcode22 program from its XML representation.\n\n" ++
  "  --source FILE   the program (standard input when omitted)\n" ++
  "  --input FILE    what the program reads (standard input when omitted)\n\n" ++
  "At least one of the files must be given.\n"

inductive Request
  | information
  | misuse
  | interpret (c : Config)
  deriving DecidableEq

inductive Word
  | information
  | file (o : FileOption) (value : Option String)
  | separator
  | other
  deriving DecidableEq

def fileOption? (name : List Char) : Option FileOption :=
  match String.ofList name with
  | "--source" => some .source
  | "--input" => some .input
  | _ => none

def Word.ofText (text : String) : Word :=
  if text = "--help" ∨ text = "--version" then .information
  else if text = "--" then .separator
  else match text.toList with
    | '-' :: 'h' :: _ | '-' :: 'V' :: _ => .information
    | s =>
      let (name, value) := match cut? '=' s with
        | some (name, value) => (name, some (String.ofList value))
        | none => (s, none)
      match fileOption? name with
      | some o => .file o value
      | none => .other

/-- A lone dash is a value, and any other text with a dash at its start is none. -/
def isValue (text : String) : Bool := text = "-" || text.toList.head? != some '-'

def finish (c : Config) : Request :=
  if c.source.isNone && c.input.isNone then .misuse else .interpret c

/-- Reads the arguments up to the first one that decides. Each file is named at most once. -/
def parse (c : Config) : List String → Request
  | [] => finish c
  | text :: r =>
    match Word.ofText text with
    | .information => .information
    | .file o (some value) =>
      if (c.get o).isSome || value.isEmpty then .misuse else parse (c.put value o) r
    | .file o none =>
      match r with
      | value :: r =>
        if (c.get o).isSome || value.isEmpty || !isValue value then .misuse
        else parse (c.put value o) r
      | [] => .misuse
    | .separator => if r.isEmpty then finish c else .misuse
    | .other => .misuse

/-- The exit code of the tool, and its own words on the stream of diagnostics. -/
structure Ending where
  code : Nat
  report : String
  deriving DecidableEq

namespace Ending

def error (code : Nat) (message : String) : Ending := ⟨code, s!"error: {message}\n"⟩

def missing (verb path : String) : Ending :=
  error 11 s!"cannot {verb} '{path}': No such file or directory (os error 2)"

def ofLoadError (e : LoadError) : Ending := error e.kind.exitCode e.message

def ofOutcome : Outcome → Ending
  | .exit code => ⟨code, ""⟩
  | .failed e => error e.fault.kind.exitCode e.message

end Ending

def load (source : ByteArray) : Except LoadError Program :=
  match String.fromUTF8? source with
  | some text => Program.load text
  | none => .error (.malformed .encoding)

/-- The machine to run on the given contents, which are missing where there is no such file. The
program is read before the input is opened. -/
def prepare (c : Config) (source input : Option ByteArray) : Except Ending Machine := do
  let source ← match source with
    | some source => .ok source
    | none => .error (.missing "read" (c.source.getD ""))
  let program ← (load source).mapError .ofLoadError
  let input ← match input with
    | some input => .ok input
    | none => .error (.missing "open" (c.input.getD ""))
  return { program, input := input.data.toList }

structure Result where
  code : Nat
  output : ByteArray := .empty
  diagnostics : ByteArray := .empty

def Result.ofEnding (e : Ending) (m : Option Machine) : Result where
  code := e.code
  output := (m.map (·.output.accepted)).getD .empty
  diagnostics := (m.map (·.diagnostics.accepted)).getD .empty ++ e.report.toUTF8

def contents (file? : String → Option ByteArray) (standard : ByteArray) :
    Option String → Option ByteArray
  | some path => file? path
  | none => some standard

/-- The whole tool, on a set of files and a standard input. There is no result when the program
runs for more than `fuel` instructions. -/
def run (fuel : Nat) (file? : String → Option ByteArray) (standard : ByteArray)
    (arguments : List String) : Option Result :=
  match parse {} arguments with
  | .information => some { code := 0, output := usage.toUTF8 }
  | .misuse => some { code := 10, diagnostics := usage.toUTF8 }
  | .interpret c =>
    match prepare c (contents file? standard c.source) (contents file? standard c.input) with
    | .error e => some (.ofEnding e none)
    | .ok m =>
      match m.execute fuel with
      | (m, some o) => some (.ofEnding (.ofOutcome o) (some m))
      | (_, none) => none

end ThreeAddress.CommandLine

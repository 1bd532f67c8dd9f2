import ThreeAddress.CommandLine

namespace ThreeAddress.Main

open CommandLine

/-- The contents of a file that is named, if it exists; those of the standard input are supplied
later. -/
def fetch : Option String → IO (Option ByteArray)
  | some path => do
    try
      return some (← IO.FS.readBinFile path)
    catch _ => return none
  | none => return some .empty

/-- Takes standard input in until a whole line is there, or nothing more comes. -/
partial def feed (m : Machine) : IO Machine := do
  if m.input.contains Text.lineFeed then return m
  let bytes ← (← IO.getStdin).read 4096
  if bytes.isEmpty then return m
  feed { m with input := m.input ++ bytes.data.toList }

def reads (m : Machine) : Bool := m.instruction?.map (·.opcode) == some .read

/-- Runs a machine, and writes what it leaves in its sinks after each instruction. -/
partial def loop (interactive : Bool) (m : Machine) : IO Outcome := do
  let m ← if interactive && reads m then feed m else pure m
  let (m, outcome) := m.advance
  unless m.output.accepted.isEmpty do
    (← IO.getStdout).write m.output.accepted
    (← IO.getStdout).flush
  unless m.diagnostics.accepted.isEmpty do (← IO.getStderr).write m.diagnostics.accepted
  match outcome with
  | some o => return o
  | none => loop interactive { m with output := {}, diagnostics := {} }

def finish (e : Ending) : IO UInt32 := do
  IO.eprint e.report
  return e.code.toUInt32

def interpret (c : Config) : IO UInt32 := do
  let source ← match c.source with
    | some _ => fetch c.source
    | none => some <$> (← IO.getStdin).readBinToEnd
  match prepare c source (← fetch c.input) with
  | .error e => finish e
  | .ok m =>
    match m.start with
    | .error e => finish (.ofOutcome (.failed e))
    | .ok m => finish (.ofOutcome (← loop c.input.isNone m))

end ThreeAddress.Main

def main (arguments : List String) : IO UInt32 := do
  match ThreeAddress.CommandLine.parse {} arguments with
  | .information =>
    IO.print ThreeAddress.CommandLine.usage
    return 0
  | .misuse =>
    IO.eprint ThreeAddress.CommandLine.usage
    return 10
  | .interpret c => ThreeAddress.Main.interpret c

import ThreeAddress.Run

namespace ThreeAddress

def padded (n : Nat) : String :=
  let digits := toString n
  "".pushn ' ' (4 - digits.length) ++ digits

namespace Machine

def lineWarning (before after : Machine) : List String :=
  if after.input.length < before.input.length && (Text.takeLine before.input).1.isNone then
    ["WARN input read failed, treating as end of input: stream did not contain valid UTF-8"]
  else []

/-- What an instruction tells about its work, from the machine before it, the machine after it and
the outcome. -/
def remarks (before : Machine) (i : Instruction) (after : Machine) (outcome : Option Outcome) :
    List String :=
  match i.opcode with
  | .createFrame =>
    if before.frames.temporary.isSome then ["DEBUG discarding previous temporary frame"] else []
  | .pushFrame =>
    if before.frames.depth < after.frames.depth then
      [s!"DEBUG pushed frame, depth {after.frames.depth}"]
    else []
  | .popFrame =>
    if after.frames.depth < before.frames.depth then
      [s!"DEBUG popped frame, depth {after.frames.depth}"]
    else []
  | .read => before.lineWarning after
  | .breakpoint =>
    if (before.diagnostics.write before.report).2 then []
    else [s!"WARN BREAK dump failed: {RuntimeError.refusal}"]
  | .exit =>
    match outcome with
    | some (.exit code) => [s!"DEBUG EXIT {code} after {after.executed} instructions"]
    | _ => []
  | _ => []

def trace (before : Machine) : List String :=
  match before.instruction? with
  | none => [s!"DEBUG program finished after {before.executed} instructions"]
  | some i =>
    s!"TRACE {padded i.order} {i.display}" :: before.remarks i before.advance.1 before.advance.2

def runTraced : Nat → Machine → Array String → Machine × Option Outcome × Array String
  | 0, m, log => (m, none, log)
  | fuel + 1, m, log =>
    let log := log ++ m.trace
    match m.advance with
    | (m, none) => runTraced fuel m log
    | (m, some o) => (m, some o, log)

def executeTraced (fuel : Nat) (m : Machine) : Machine × Option Outcome × Array String :=
  match m.start with
  | .ok m => m.runTraced fuel #[s!"DEBUG resolved {m.labels.targets.length} labels"]
  | .error e => (m, some (.failed e), #[])

end Machine

end ThreeAddress

import ThreeAddress.Step

namespace ThreeAddress

inductive Outcome
  | exit (code : Nat)
  | failed (e : RuntimeError)
  deriving DecidableEq

namespace Machine

/-- Counts a completed instruction and follows its flow. An exit stays where it is. -/
def follow (m : Machine) : Flow → Machine × Option Outcome
  | .next => ({ m with executed := m.executed + 1, pc := m.pc + 1 }, none)
  | .jump target => ({ m with executed := m.executed + 1, pc := target }, none)
  | .exit code => ({ m with executed := m.executed + 1 }, some (.exit code))

/-- One instruction; there is an outcome when the run ends there. -/
def advance (m : Machine) : Machine × Option Outcome :=
  match m.instruction? with
  | none => (m, some (.exit 0))
  | some i =>
    match i.step m with
    | .ok flow m => m.follow flow
    | .error f m => (m, some (.failed (.ofInstruction i f)))

/-- At most `fuel` instructions; there is no outcome when the run goes on after them. -/
def run : Nat → Machine → Machine × Option Outcome
  | 0, m => (m, none)
  | fuel + 1, m =>
    match m.advance with
    | (m, none) => run fuel m
    | (m, some o) => (m, some o)

def start (m : Machine) : Except RuntimeError Machine :=
  (Labels.resolve m.program).map fun labels ↦ { m with labels }

def execute (fuel : Nat) (m : Machine) : Machine × Option Outcome :=
  match m.start with
  | .ok m => m.run fuel
  | .error e => (m, some (.failed e))

end Machine

end ThreeAddress

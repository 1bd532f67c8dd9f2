import ThreeAddress.Machine
import ThreeAddress.Text.Lines

namespace ThreeAddress

/-- Work on a machine. What was done before a fault remains done. -/
abbrev Effect := EStateM Fault Machine

namespace Effect

variable {α : Type}

def attempt (r : Except Fault α) : Effect α := fun m ↦
  match r with
  | .ok a => .ok a m
  | .error f => .error f m

def value (v : VarRef) : Effect Value := do attempt ((← get).frames.get v)

def changeFrames (f : Frames → Except Fault Frames) : Effect Unit := do
  let m ← get
  let fs ← attempt (f m.frames)
  set { m with frames := fs }

def assign (v : VarRef) (x : Value) : Effect Unit := changeFrames (·.set v x)

def push (x : Value) : Effect Unit := modify fun m ↦ { m with operands := x :: m.operands }

def pop : Effect Value := do
  match (← get).operands with
  | x :: r =>
    modify fun m ↦ { m with operands := r }
    return x
  | [] => throw .emptyOperandStack

def clear : Effect Unit := modify fun m ↦ { m with operands := [] }

def pushCall (position : Nat) : Effect Unit :=
  modify fun m ↦ { m with calls := position :: m.calls }

def popCall : Effect Nat := do
  match (← get).calls with
  | position :: r =>
    modify fun m ↦ { m with calls := r }
    return position
  | [] => throw .emptyCallStack

def readLine : Effect (Option String) :=
  modifyGet fun m ↦ ((Text.takeLine m.input).1, { m with input := (Text.takeLine m.input).2 })

def printOutput (text : String) : Effect Bool := modifyGet fun m ↦
  let (sink, all) := m.output.write text
  (all, { m with output := sink })

def printDiagnostics (text : String) : Effect Bool := modifyGet fun m ↦
  let (sink, all) := m.diagnostics.write text
  (all, { m with diagnostics := sink })

def require (ok : Bool) (f : Fault) : Effect Unit := unless ok do throw f

def defined (x : Value) : Effect Value := if x = .undefined then throw .missingValue else return x

end Effect

end ThreeAddress

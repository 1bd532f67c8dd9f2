import ThreeAddress.Effect
import ThreeAddress.Operation
import ThreeAddress.ReadType
import ThreeAddress.Report

namespace ThreeAddress

inductive Flow
  | next
  | jump (target : Nat)
  | exit (code : Nat)
  deriving DecidableEq

namespace Instruction

open Effect

variable (i : Instruction)

/-- The variable in a slot; it must be named by a variable argument. -/
def named (k : Nat) : Effect VarRef :=
  match i.arguments[k]? with
  | some (.var v) => return v
  | _ => throw (.malformedOperand k)

/-- The variable in a slot, which must exist. -/
def destination (k : Nat) : Effect VarRef := do
  let v ← i.named k
  let _ ← value v
  return v

def symbol (k : Nat) : Effect Value :=
  match i.arguments[k]? with
  | some (.var v) => value v
  | some (.literal x) => return x
  | _ => throw (.malformedOperand k)

def definedSymbol (k : Nat) : Effect Value := do defined (← i.symbol k)

def typeName (k : Nat) : Effect String :=
  match i.arguments[k]? with
  | some (.type name) => return name
  | _ => throw (.malformedOperand k)

def target : Effect Nat :=
  match i.arguments.head? with
  | some (.label name) => do
    match (← get).labels.target? name with
    | some n => return n
    | none => throw (.undefinedLabel name)
  | _ => throw (.malformedOperand 0)

/-- The three-address form of an operation on one value. -/
def applyUnary (op : Value → Except Fault Value) : Effect Unit := do
  let v ← i.destination 0
  let a ← i.definedSymbol 1
  assign v (← attempt (op a))

/-- The three-address form of an operation on two values. All operands are looked up before one of
them is required to be defined. -/
def applyBinary (op : Value → Value → Except Fault Value) : Effect Unit := do
  let v ← i.destination 0
  let a ← i.symbol 1
  let b ← i.symbol 2
  let a ← defined a
  let b ← defined b
  assign v (← attempt (op a b))

def applySetChar : Effect Unit := do
  let v ← i.destination 0
  let s ← i.symbol 0
  let n ← i.symbol 1
  let r ← i.symbol 2
  let s ← defined s
  let n ← defined n
  let r ← defined r
  assign v (← attempt (Value.setChar s n r))

def applyRead : Effect Unit := do
  let v ← i.destination 0
  let type ← i.typeName 1
  let line ← readLine
  assign v (← attempt (Value.ofLine type line))

def branch (c : Condition) (target : Nat) (a b : Value) : Effect Flow := do
  return if ← attempt (c.holds a b) then .jump target else .next

def step : Effect Flow :=
  match i.opcode with
  | .move => do
    let v ← i.destination 0
    assign v (← i.definedSymbol 1)
    return .next
  | .createFrame => do
    changeFrames fun fs ↦ .ok fs.create
    return .next
  | .pushFrame => do
    changeFrames Frames.push
    return .next
  | .popFrame => do
    changeFrames Frames.pop
    return .next
  | .defVar => do
    let v ← i.named 0
    changeFrames (·.define v)
    return .next
  | .call => do
    let target ← i.target
    pushCall (← get).pc
    return .jump target
  | .ret => return .jump ((← popCall) + 1)
  | .pushs => do
    push (← i.definedSymbol 0)
    return .next
  | .pops => do
    let v ← i.destination 0
    assign v (← pop)
    return .next
  | .clears => do
    clear
    return .next
  | .binary op => do
    i.applyBinary op.apply
    return .next
  | .unary op => do
    i.applyUnary op.apply
    return .next
  | .read => do
    i.applyRead
    return .next
  | .write => do
    let x ← i.definedSymbol 0
    require (← printOutput x.display) .output
    return .next
  | .concat => do
    i.applyBinary Value.concat
    return .next
  | .strlen => do
    i.applyUnary Value.strlen
    return .next
  | .getChar => do
    i.applyBinary Value.getChar
    return .next
  | .setChar => do
    i.applySetChar
    return .next
  | .type => do
    let v ← i.destination 0
    let x ← i.symbol 1
    assign v (.string x.typeName)
    return .next
  | .label => return .next
  | .jump => return .jump (← i.target)
  | .jumpIf c => do
    let target ← i.target
    let a ← i.definedSymbol 1
    let b ← i.definedSymbol 2
    branch c target a b
  | .exit => do
    let x ← i.definedSymbol 0
    return .exit (← attempt x.exitCode)
  | .dprint => do
    let x ← i.definedSymbol 0
    require (← printDiagnostics x.display) .output
    return .next
  | .breakpoint => do
    let _ ← printDiagnostics (← get).report
    return .next
  | .binaryStack op => do
    let b ← pop
    let a ← pop
    push (← attempt (op.apply a b))
    return .next
  | .unaryStack op => do
    let a ← pop
    push (← attempt (op.apply a))
    return .next
  | .jumpIfStack c => do
    let target ← i.target
    let b ← pop
    let a ← pop
    branch c target a b

end Instruction

end ThreeAddress

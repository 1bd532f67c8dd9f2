import ThreeAddress.Proofs.Effect
import ThreeAddress.Step

namespace ThreeAddress

open Effect

def Value.present (x : Value) : Except Fault Value :=
  if x = .undefined then .error .missingValue else .ok x

theorem Value.present_of_ne {x : Value} (h : x ≠ .undefined) : x.present = .ok x := if_neg h

theorem Value.of_present {x y : Value} (h : x.present = .ok y) : x = y := by
  simp only [present] at h
  split at h
  · cases h
  · exact Except.ok.inj h

theorem Effect.defined_eq (x : Value) : defined x = reading fun _ ↦ x.present := by
  funext m
  simp only [defined, reading, consult, Value.present]
  split <;> rfl

/-- The value that an argument denotes; `slot` is where a complaint finds it. -/
def Argument.look (fs : Frames) (slot : Nat) : Option Argument → Except Fault Value
  | some (.var v) => fs.get v
  | some (.literal x) => .ok x
  | _ => .error (.malformedOperand slot)

namespace Instruction

variable (i : Instruction) (fs : Frames)

def operand (k : Nat) : Except Fault Value := Argument.look fs k i.arguments[k]?

def varAt (k : Nat) : Except Fault VarRef :=
  match i.arguments[k]? with
  | some (.var v) => .ok v
  | _ => .error (.malformedOperand k)

def place (k : Nat) : Except Fault VarRef := do
  let v ← i.varAt k
  let _ ← fs.get v
  return v

def readType (k : Nat) : Except Fault String :=
  match i.arguments[k]? with
  | some (.type name) => .ok name
  | _ => .error (.malformedOperand k)

def goal (t : Labels) : Except Fault Nat :=
  match i.arguments.head? with
  | some (.label name) =>
    match t.target? name with
    | some n => .ok n
    | none => .error (.undefinedLabel name)
  | _ => .error (.malformedOperand 0)

theorem named_eq (k : Nat) : i.named k = reading fun _ ↦ i.varAt k := by
  funext m
  simp only [named, varAt, reading, consult]
  cases i.arguments[k]? with
  | none => rfl
  | some a => cases a <;> rfl

theorem destination_eq (k : Nat) : i.destination k = reading (i.place · k) := by
  simp only [destination, place, named_eq, value_eq, pure_eq, reading_bind_reading]
  rfl

theorem symbol_eq (k : Nat) : i.symbol k = reading (i.operand · k) := by
  funext m
  simp only [symbol, operand, reading, consult]
  cases i.arguments[k]? with
  | none => rfl
  | some a => cases a <;> rfl

theorem definedSymbol_eq (k : Nat) :
    i.definedSymbol k = reading fun fs ↦ i.operand fs k >>= Value.present := by
  simp only [definedSymbol, symbol_eq, defined_eq, reading_bind_reading]

theorem typeName_eq (k : Nat) : i.typeName k = reading fun _ ↦ i.readType k := by
  funext m
  simp only [typeName, readType, reading, consult]
  cases i.arguments[k]? with
  | none => rfl
  | some a => cases a <;> rfl

theorem target_eq : i.target = consult fun m ↦ i.goal m.labels := by
  funext m
  simp only [target, goal, consult]
  cases i.arguments.head? with
  | none => rfl
  | some a =>
    cases a with
    | label name =>
      simp only [bind_apply, get_apply]
      cases m.labels.target? name <;> rfl
    | var v | literal x | type name => rfl

def unaryFrames (op : Value → Except Fault Value) : Except Fault Frames := do
  let v ← i.place fs 0
  let a ← i.operand fs 1
  let a ← a.present
  let x ← op a
  fs.set v x

def binaryFrames (op : Value → Value → Except Fault Value) : Except Fault Frames := do
  let v ← i.place fs 0
  let a ← i.operand fs 1
  let b ← i.operand fs 2
  let a ← a.present
  let b ← b.present
  let x ← op a b
  fs.set v x

def setCharFrames : Except Fault Frames := do
  let v ← i.place fs 0
  let s ← i.operand fs 0
  let n ← i.operand fs 1
  let r ← i.operand fs 2
  let s ← s.present
  let n ← n.present
  let r ← r.present
  let x ← Value.setChar s n r
  fs.set v x

def typeFrames : Except Fault Frames := do
  let v ← i.place fs 0
  let x ← i.operand fs 1
  fs.set v (.string x.typeName)

def defineFrames : Except Fault Frames := do
  let v ← i.varAt 0
  fs.define v

theorem applyUnary_eq (op : Value → Except Fault Value) :
    i.applyUnary op = changeFrames (i.unaryFrames · op) := by
  simp only [applyUnary, unaryFrames, assign, destination_eq, definedSymbol_eq, attempt_eq,
    reading_bind_changeFrames, bind_assoc]

theorem applyBinary_eq (op : Value → Value → Except Fault Value) :
    i.applyBinary op = changeFrames (i.binaryFrames · op) := by
  simp only [applyBinary, binaryFrames, assign, destination_eq, symbol_eq, defined_eq, attempt_eq,
    reading_bind_changeFrames]

theorem applySetChar_eq : i.applySetChar = changeFrames i.setCharFrames := by
  simp only [applySetChar, assign, destination_eq, symbol_eq, defined_eq,
    attempt_eq, reading_bind_changeFrames]
  rfl

theorem move_eq :
    (do assign (← i.destination 0) (← i.definedSymbol 1)) =
      changeFrames (i.unaryFrames · .ok) := by
  simp only [unaryFrames, assign, destination_eq, definedSymbol_eq, reading_bind_changeFrames,
    bind_assoc]
  rfl

theorem type_eq :
    (do
      let v ← i.destination 0
      let x ← i.symbol 1
      assign v (.string x.typeName)) = changeFrames i.typeFrames := by
  simp only [assign, destination_eq, symbol_eq, reading_bind_changeFrames]
  rfl

theorem define_eq :
    (do
      let v ← i.named 0
      changeFrames (·.define v)) = changeFrames i.defineFrames := by
  simp only [named_eq, reading_bind_changeFrames]
  rfl

/-- What an instruction makes of the frames, if it works on nothing else. -/
def reframe? : Option (Frames → Except Fault Frames) :=
  match i.opcode with
  | .move => some (i.unaryFrames · .ok)
  | .createFrame => some fun fs ↦ .ok fs.create
  | .pushFrame => some Frames.push
  | .popFrame => some Frames.pop
  | .defVar => some i.defineFrames
  | .binary op => some (i.binaryFrames · op.apply)
  | .unary op => some (i.unaryFrames · op.apply)
  | .concat => some (i.binaryFrames · Value.concat)
  | .strlen => some (i.unaryFrames · Value.strlen)
  | .getChar => some (i.binaryFrames · Value.getChar)
  | .setChar => some i.setCharFrames
  | .type => some i.typeFrames
  | _ => none

variable {i} {F : Frames → Except Fault Frames}

theorem step_of_reframe? (h : i.reframe? = some F) :
    i.step = changeFrames F >>= fun _ ↦ pure .next := by
  simp only [reframe?] at h
  split at h
  · next ho =>
    cases h
    simp only [step, ho, ← move_eq, bind_assoc]
  · next ho => cases h; simp only [step, ho]
  · next ho => cases h; simp only [step, ho]
  · next ho => cases h; simp only [step, ho]
  · next ho =>
    cases h
    simp only [step, ho, ← define_eq, bind_assoc]
  · next op ho =>
    cases h
    simp only [step, ho, applyBinary_eq]
  · next op ho =>
    cases h
    simp only [step, ho, applyUnary_eq]
  · next ho =>
    cases h
    simp only [step, ho, applyBinary_eq]
  · next ho =>
    cases h
    simp only [step, ho, applyUnary_eq]
  · next ho =>
    cases h
    simp only [step, ho, applyBinary_eq]
  · next ho =>
    cases h
    simp only [step, ho, applySetChar_eq]
  · next ho =>
    cases h
    simp only [step, ho, ← type_eq, bind_assoc]
  · cases h

end Instruction

end ThreeAddress

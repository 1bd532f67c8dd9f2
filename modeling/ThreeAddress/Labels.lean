import ThreeAddress.Fault
import ThreeAddress.Program

namespace ThreeAddress

/-- Where to go on after a jump to a label. -/
structure Labels where
  targets : List (String × Nat) := []
  deriving DecidableEq

namespace Labels

def target? (t : Labels) (label : String) : Option Nat := t.targets.lookup label

def define (t : Labels) (i : Instruction) (index : Nat) : Except RuntimeError Labels :=
  match i.opcode, i.label? with
  | .label, some name =>
    match t.target? name with
    | some _ => .error (.ofInstruction i (.duplicateLabel name))
    | none => .ok ⟨(name, index + 1) :: t.targets⟩
  | _, _ => .ok t

def unresolved? (t : Labels) (i : Instruction) : Option RuntimeError :=
  match i.label? with
  | some name =>
    if i.opcode.referencesLabel && (t.target? name).isNone then
      some (.ofInstruction i (.undefinedLabel name))
    else none
  | none => none

/-- All definitions are collected before the references are checked. -/
def resolve (p : Program) : Except RuntimeError Labels := do
  let t ← p.instructions.zipIdx.foldlM (fun t i ↦ t.define i.1 i.2) {}
  match p.instructions.findSome? t.unresolved? with
  | some e => .error e
  | none => .ok t

end Labels

end ThreeAddress

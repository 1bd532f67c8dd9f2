import ThreeAddress.Fault

namespace ThreeAddress

structure Frame where
  entries : List (String × Value) := []
  deriving DecidableEq

namespace Frame

def get? (f : Frame) (name : String) : Option Value := f.entries.lookup name

def contains (f : Frame) (name : String) : Bool := (f.get? name).isSome

def define (f : Frame) (name : String) : Frame := ⟨f.entries ++ [(name, .undefined)]⟩

def set (f : Frame) (name : String) (x : Value) : Frame :=
  ⟨f.entries.map fun p ↦ if p.1 = name then (p.1, x) else p⟩

end Frame

/-- The global frame always exists. The local frame is the first of the stack `locals`. -/
structure Frames where
  globals : Frame := {}
  locals : List Frame := []
  temporary : Option Frame := none
  deriving DecidableEq

namespace Frames

def frame? (fs : Frames) : FrameKind → Option Frame
  | .gf => some fs.globals
  | .lf => fs.locals.head?
  | .tf => fs.temporary

def replace (fs : Frames) (f : Frame) : FrameKind → Frames
  | .gf => { fs with globals := f }
  | .lf => { fs with locals := f :: fs.locals.tail }
  | .tf => { fs with temporary := some f }

def frame (fs : Frames) (kind : FrameKind) : Except Fault Frame :=
  match fs.frame? kind with
  | some f => .ok f
  | none => .error (.nonexistentFrame kind)

def get (fs : Frames) (v : VarRef) : Except Fault Value := do
  let f ← fs.frame v.frame
  match f.get? v.name with
  | some x => .ok x
  | none => .error (.undefinedVariable v)

def set (fs : Frames) (v : VarRef) (x : Value) : Except Fault Frames := do
  let f ← fs.frame v.frame
  if f.contains v.name then .ok (fs.replace (f.set v.name x) v.frame)
  else .error (.undefinedVariable v)

def define (fs : Frames) (v : VarRef) : Except Fault Frames := do
  let f ← fs.frame v.frame
  if f.contains v.name then .error (.variableRedefinition v)
  else .ok (fs.replace (f.define v.name) v.frame)

def create (fs : Frames) : Frames := { fs with temporary := some {} }

/-- The temporary frame becomes the local one. -/
def push (fs : Frames) : Except Fault Frames :=
  match fs.temporary with
  | some f => .ok { fs with locals := f :: fs.locals, temporary := none }
  | none => .error (.nonexistentFrame .tf)

/-- The local frame becomes the temporary one. -/
def pop (fs : Frames) : Except Fault Frames :=
  match fs.locals with
  | f :: locals => .ok { fs with locals, temporary := some f }
  | [] => .error (.nonexistentFrame .lf)

def depth (fs : Frames) : Nat := fs.locals.length

end Frames

end ThreeAddress

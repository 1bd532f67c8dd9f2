import ThreeAddress.Operation
import ThreeAddress.Opcode

namespace ThreeAddress

inductive ValueType
  | undefined
  | nil
  | bool
  | int
  | float
  | string
  deriving DecidableEq

def Value.type : Value → ValueType
  | .undefined => .undefined
  | .nil => .nil
  | .bool _ => .bool
  | .int _ => .int
  | .float _ => .float
  | .string _ => .string

open ValueType

def ValueType.ordered (t : ValueType) : Bool := t != .undefined && t != .nil

/-- The types of operands that an operation is made for. -/
def BinaryOp.accepts : BinaryOp → ValueType → ValueType → Bool
  | .add, s, t | .sub, s, t | .mul, s, t | .idiv, s, t => s == t && (s == int || s == float)
  | .div, s, t => s == float && t == float
  | .lt, s, t | .gt, s, t => s == t && s.ordered
  | .eq, s, t => s == nil || t == nil || s == t && s.ordered
  | .and, s, t | .or, s, t => s == bool && t == bool
  | .stri2int, s, t => s == string && t == int

def UnaryOp.accepts : UnaryOp → ValueType → Bool
  | .not, t => t == bool
  | .int2char, t | .int2float, t => t == int
  | .float2int, t => t == float

def Opcode.accepts : Opcode → List ValueType → Bool
  | .binary op, [s, t] => op.accepts s t
  | .unary op, [t] => op.accepts t
  | .concat, [s, t] => s == string && t == string
  | .strlen, [t] => t == string
  | .getChar, [s, t] => s == string && t == int
  | .setChar, [s, t, u] => s == string && t == int && u == string
  | .jumpIf _, [s, t] => BinaryOp.eq.accepts s t
  | .exit, [t] => t == int
  | _, _ => true

/-- The faults that values of suitable types raise. -/
def Fault.ofValue : Fault → Bool
  | .divisionByZero | .exitCodeOutOfRange _ | .floatToIntOverflow => true
  | .indexOutOfRange _ _ | .invalidCodepoint _ | .emptyReplacement => true
  | _ => false

/-- Whether the operands suit an operation decides between a mismatch and all other results. -/
structure Typed {α : Type} (suitable : Bool) (r : Except Fault α) : Prop where
  mismatch : suitable = false → r = .error .typeMismatch
  ofValue : suitable = true → ∀ f, r = .error f → f.ofValue = true

namespace Typed

variable {α β : Type} {suitable : Bool} {r : Except Fault α}

theorem ok {x : α} (h : suitable = true) : Typed suitable (.ok x) where
  mismatch hs := by rw [hs] at h; cases h
  ofValue _ f hf := by cases hf

theorem error {f : Fault} (h : suitable = true) (hf : f.ofValue = true) :
    Typed suitable (.error f : Except Fault α) where
  mismatch hs := by rw [hs] at h; cases h
  ofValue _ g hg := by cases hg; exact hf

theorem typeMismatch (h : suitable = false) :
    Typed suitable (.error .typeMismatch : Except Fault α) where
  mismatch _ := rfl
  ofValue hs := by rw [hs] at h; cases h

theorem map (h : Typed suitable r) (g : α → β) : Typed suitable (r.map g) where
  mismatch hs := by rw [h.mismatch hs]; rfl
  ofValue hs f hf := by
    cases hr : r with
    | ok a => rw [hr] at hf; cases hf
    | error e => rw [hr] at hf; cases hf; exact h.ofValue hs _ hr

end Typed

theorem charAt_typed (s : String) (n : Int64) : Typed true (Value.charAt s n) := by
  simp only [Value.charAt]
  split
  · exact .ok rfl
  · exact .error rfl rfl

theorem concat_typed (a b : Value) :
    Typed (Opcode.concat.accepts [a.type, b.type]) (a.concat b) := by
  cases a <;> cases b <;> first
    | exact .ok rfl
    | exact .typeMismatch rfl

theorem strlen_typed (a : Value) : Typed (Opcode.strlen.accepts [a.type]) a.strlen := by
  cases a <;> first
    | exact .ok rfl
    | exact .typeMismatch rfl

theorem getChar_typed (a b : Value) :
    Typed (Opcode.getChar.accepts [a.type, b.type]) (a.getChar b) := by
  cases a <;> cases b <;> first
    | exact .typeMismatch rfl
    | exact (charAt_typed _ _).map _

theorem setChar_typed (a b c : Value) :
    Typed (Opcode.setChar.accepts [a.type, b.type, c.type]) (a.setChar b c) := by
  cases a <;> cases b <;> cases c <;> first
    | exact .typeMismatch rfl
    | skip
  next s n r =>
    simp only [Value.setChar]
    cases hc : Value.charAt s n with
    | error f => exact .error rfl ((charAt_typed s n).ofValue rfl f hc)
    | ok c =>
      simp only [bind, Except.bind]
      split
      · exact .error rfl rfl
      · exact .ok rfl

theorem exitCode_typed (a : Value) : Typed (Opcode.exit.accepts [a.type]) a.exitCode := by
  cases a <;> simp only [Value.exitCode] <;> first
    | exact .typeMismatch rfl
    | split
      · exact .ok rfl
      · exact .error rfl rfl

theorem equal_typed (a b : Value) : Typed (BinaryOp.eq.accepts a.type b.type) (a.equal b) := by
  cases a <;> cases b <;> first
    | exact .ok rfl
    | exact .typeMismatch rfl

theorem less_typed (a b : Value) : Typed (BinaryOp.lt.accepts a.type b.type) (a.less b) := by
  cases a <;> cases b <;> first
    | exact .ok rfl
    | exact .typeMismatch rfl

theorem Condition.holds_typed (c : Condition) (a b : Value) :
    Typed ((Opcode.jumpIf c).accepts [a.type, b.type]) (c.holds a b) := (equal_typed a b).map _

theorem BinaryOp.accepts_gt (s t : ValueType) : gt.accepts s t = lt.accepts t s := by
  cases s <;> cases t <;> rfl

theorem BinaryOp.apply_typed (op : BinaryOp) (a b : Value) :
    Typed (op.accepts a.type b.type) (op.apply a b) := by
  cases op with
  | lt => exact (less_typed a b).map _
  | gt =>
    rw [accepts_gt]
    exact (less_typed b a).map _
  | eq => exact (equal_typed a b).map _
  | add | sub | mul | and | or =>
    cases a <;> cases b <;> first
      | exact .ok rfl
      | exact .typeMismatch rfl
  | div | idiv =>
    cases a <;> cases b <;> simp only [apply] <;> first
      | exact .typeMismatch rfl
      | split
        · exact .error rfl rfl
        · exact .ok rfl
  | stri2int =>
    cases a <;> cases b <;> first
      | exact .typeMismatch rfl
      | exact (charAt_typed _ _).map _

theorem UnaryOp.apply_typed (op : UnaryOp) (a : Value) :
    Typed (op.accepts a.type) (op.apply a) := by
  cases op with
  | not | int2float =>
    cases a <;> first
      | exact .ok rfl
      | exact .typeMismatch rfl
  | int2char =>
    cases a <;> simp only [apply] <;> first
      | exact .typeMismatch rfl
      | split
        · exact .ok rfl
        · exact .error rfl rfl
  | float2int =>
    cases a <;> simp only [apply] <;> first
      | exact .typeMismatch rfl
      | split
        · split
          · exact .ok rfl
          · exact .error rfl rfl
        · exact .error rfl rfl

end ThreeAddress

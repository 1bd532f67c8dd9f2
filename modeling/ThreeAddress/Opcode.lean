import ThreeAddress.DecodeError
import ThreeAddress.Text.Basic

namespace ThreeAddress

inductive BinaryOp
  | add
  | sub
  | mul
  | div
  | idiv
  | lt
  | gt
  | eq
  | and
  | or
  | stri2int
  deriving DecidableEq

inductive UnaryOp
  | not
  | int2char
  | int2float
  | float2int
  deriving DecidableEq

inductive Condition
  | eq
  | neq
  deriving DecidableEq

inductive Opcode
  | move
  | createFrame
  | pushFrame
  | popFrame
  | defVar
  | call
  | ret
  | pushs
  | pops
  | clears
  | binary (op : BinaryOp)
  | unary (op : UnaryOp)
  | read
  | write
  | concat
  | strlen
  | getChar
  | setChar
  | type
  | label
  | jump
  | jumpIf (c : Condition)
  | exit
  | dprint
  | breakpoint
  | binaryStack (op : BinaryOp)
  | unaryStack (op : UnaryOp)
  | jumpIfStack (c : Condition)
  deriving DecidableEq

/-- What an argument slot asks for; a symbol is a variable or a literal. -/
inductive OperandKind
  | var
  | symb
  | label
  | type
  deriving DecidableEq

def OperandKind.name : OperandKind → String
  | var => "var"
  | symb => "symb"
  | label => "label"
  | type => "type"

def BinaryOp.mnemonic : BinaryOp → String
  | add => "ADD"
  | sub => "SUB"
  | mul => "MUL"
  | div => "DIV"
  | idiv => "IDIV"
  | lt => "LT"
  | gt => "GT"
  | eq => "EQ"
  | and => "AND"
  | or => "OR"
  | stri2int => "STRI2INT"

def UnaryOp.mnemonic : UnaryOp → String
  | not => "NOT"
  | int2char => "INT2CHAR"
  | int2float => "INT2FLOAT"
  | float2int => "FLOAT2INT"

def Condition.mnemonic : Condition → String
  | eq => "JUMPIFEQ"
  | neq => "JUMPIFNEQ"

namespace Opcode

/-- The stack forms add an `S` to the name of their three-address form. -/
def mnemonic : Opcode → String
  | move => "MOVE"
  | createFrame => "CREATEFRAME"
  | pushFrame => "PUSHFRAME"
  | popFrame => "POPFRAME"
  | defVar => "DEFVAR"
  | call => "CALL"
  | ret => "RETURN"
  | pushs => "PUSHS"
  | pops => "POPS"
  | clears => "CLEARS"
  | binary op => op.mnemonic
  | unary op => op.mnemonic
  | read => "READ"
  | write => "WRITE"
  | concat => "CONCAT"
  | strlen => "STRLEN"
  | getChar => "GETCHAR"
  | setChar => "SETCHAR"
  | type => "TYPE"
  | label => "LABEL"
  | jump => "JUMP"
  | jumpIf c => c.mnemonic
  | exit => "EXIT"
  | dprint => "DPRINT"
  | breakpoint => "BREAK"
  | binaryStack op => op.mnemonic ++ "S"
  | unaryStack op => op.mnemonic ++ "S"
  | jumpIfStack c => c.mnemonic ++ "S"

/-- The kinds of the arguments, slot by slot. -/
def signature : Opcode → List OperandKind
  | createFrame | pushFrame | popFrame | ret | clears | breakpoint => []
  | binaryStack _ | unaryStack _ => []
  | defVar | pops => [.var]
  | call | label | jump | jumpIfStack _ => [.label]
  | pushs | write | exit | dprint => [.symb]
  | move | unary _ | strlen | type => [.var, .symb]
  | read => [.var, .type]
  | binary _ | concat | getChar | setChar => [.var, .symb, .symb]
  | jumpIf _ => [.label, .symb, .symb]

/-- Whether the label argument names a target, and does not define one. -/
def referencesLabel : Opcode → Bool
  | call | jump | jumpIf _ | jumpIfStack _ => true
  | _ => false

def all : List Opcode :=
  [move, createFrame, pushFrame, popFrame, defVar, call, ret, pushs, pops, clears,
    binary .add, binary .sub, binary .mul, binary .div, binary .idiv,
    binary .lt, binary .gt, binary .eq, binary .and, binary .or, unary .not,
    unary .int2char, binary .stri2int, unary .int2float, unary .float2int,
    read, write, concat, strlen, getChar, setChar, type,
    label, jump, jumpIf .eq, jumpIf .neq, exit, dprint, breakpoint,
    binaryStack .add, binaryStack .sub, binaryStack .mul, binaryStack .div, binaryStack .idiv,
    binaryStack .lt, binaryStack .gt, binaryStack .eq, binaryStack .and, binaryStack .or,
    unaryStack .not, unaryStack .int2char, binaryStack .stri2int, unaryStack .int2float,
    unaryStack .float2int, jumpIfStack .eq, jumpIfStack .neq]

theorem mem_all (o : Opcode) : o ∈ all := by
  cases o with
  | binary op | binaryStack op => cases op <;> decide
  | unary op | unaryStack op => cases op <;> decide
  | jumpIf c | jumpIfStack c => cases c <;> decide
  | _ => decide

def ofMnemonic (text : String) : Except DecodeError Opcode :=
  match all.find? fun o ↦ Text.sameLetters o.mnemonic text with
  | some o => .ok o
  | none => .error (.unknownOpcode text)

end Opcode

end ThreeAddress

import ThreeAddress.Machine

namespace ThreeAddress

def Frame.report (name : String) : Option Frame → String
  | none => s!"{name}: <not created>"
  | some f =>
    if f.entries.isEmpty then s!"{name}: <empty>"
    else f.entries.foldl (fun t p ↦ t ++ s!" {p.1}={p.2.describe}") s!"{name}:"

namespace Machine

def reportLines (m : Machine) : List String :=
  let order := (m.instruction?.map Instruction.order).getD 0
  let operands := m.operands.foldr (fun x t ↦ t ++ s!" {x.describe}")
    s!"data stack ({m.operands.length}):"
  ["-- BREAK --",
    s!"position: {m.pc + 1} (order {order})",
    s!"executed: {m.executed}",
    Frame.report "GF" (m.frames.frame? .gf),
    Frame.report "LF" (m.frames.frame? .lf),
    Frame.report "TF" (m.frames.frame? .tf),
    s!"frame stack depth: {m.frames.depth}",
    operands,
    s!"call stack depth: {m.calls.length}",
    "-----------"]

def report (m : Machine) : String := m.reportLines.foldl (fun t line ↦ t ++ line ++ "\n") ""

end Machine

end ThreeAddress

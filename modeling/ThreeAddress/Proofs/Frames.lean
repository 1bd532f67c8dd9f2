import ThreeAddress.Frames

namespace ThreeAddress.Frames

variable {fs fs' : Frames} {v : VarRef} {x : Value} {f : Fault}

def find? (fs : Frames) (v : VarRef) : Option Value := (fs.frame? v.frame).bind (·.get? v.name)

/-- What stands in the way of a variable: its frame does not exist, or does not define it. -/
def missing? (fs : Frames) (v : VarRef) : Option Fault :=
  match fs.frame? v.frame with
  | none => some (.nonexistentFrame v.frame)
  | some f => if f.contains v.name then none else some (.undefinedVariable v)

theorem missing?_eq_none : fs.missing? v = none ↔ (fs.find? v).isSome := by
  simp only [missing?, find?]
  cases fs.frame? v.frame with
  | none => simp
  | some f => cases hx : f.get? v.name <;> simp [Frame.contains, hx]

theorem get_ok : fs.get v = .ok x ↔ fs.find? v = some x := by
  simp only [get, frame, find?]
  cases fs.frame? v.frame with
  | none => simp [bind, Except.bind]
  | some f =>
    simp only [bind, Except.bind, Option.bind_some]
    cases f.get? v.name <;> simp

theorem get_error : fs.get v = .error f ↔ fs.missing? v = some f := by
  simp only [get, frame, missing?]
  cases fs.frame? v.frame with
  | none => simp [bind, Except.bind]
  | some g =>
    simp only [bind, Except.bind]
    cases hx : g.get? v.name <;> simp [Frame.contains, hx]

theorem set_error : fs.set v x = .error f ↔ fs.missing? v = some f := by
  simp only [set, frame, missing?]
  cases fs.frame? v.frame with
  | none => simp [bind, Except.bind]
  | some g =>
    simp only [bind, Except.bind]
    cases hx : g.contains v.name <;> simp

theorem missing?_kind (h : fs.missing? v = some f) :
    f = .nonexistentFrame v.frame ∨ f = .undefinedVariable v := by
  simp only [missing?] at h
  split at h
  · exact .inl (Option.some_inj.1 h).symm
  · split at h
    · cases h
    · exact .inr (Option.some_inj.1 h).symm

theorem define_error (h : fs.define v = .error f) :
    f = .nonexistentFrame v.frame ∨ f = .variableRedefinition v := by
  simp only [define, frame] at h
  cases hf : fs.frame? v.frame with
  | none =>
    simp only [hf, bind, Except.bind, Except.error.injEq] at h
    exact .inl h.symm
  | some g =>
    simp only [hf, bind, Except.bind] at h
    split at h
    · exact .inr (Except.error.inj h).symm
    · cases h

theorem push_error (h : fs.push = .error f) : f = .nonexistentFrame .tf := by
  simp only [push] at h
  split at h
  · cases h
  · exact (Except.error.inj h).symm

theorem pop_error (h : fs.pop = .error f) : f = .nonexistentFrame .lf := by
  simp only [pop] at h
  split at h
  · cases h
  · exact (Except.error.inj h).symm

end ThreeAddress.Frames

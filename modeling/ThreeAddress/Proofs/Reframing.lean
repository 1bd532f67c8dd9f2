import ThreeAddress.Proofs.Transitions

namespace ThreeAddress

namespace Frames

variable {fs fs' : Frames} {v : VarRef} {x : Value}

theorem set_ok : fs.set v x = .ok fs' ↔
    ∃ f, fs.frame? v.frame = some f ∧ f.contains v.name = true ∧
      fs.replace (f.set v.name x) v.frame = fs' := by
  simp only [set, frame]
  cases fs.frame? v.frame with
  | none => simp only [Except.error_bind, reduceCtorEq, false_and, exists_false]
  | some f => cases hc : f.contains v.name <;> simp [hc]

theorem define_ok : fs.define v = .ok fs' ↔
    ∃ f, fs.frame? v.frame = some f ∧ f.contains v.name = false ∧
      fs.replace (f.define v.name) v.frame = fs' := by
  simp only [define, frame]
  cases fs.frame? v.frame with
  | none => simp only [Except.error_bind, reduceCtorEq, false_and, exists_false]
  | some f => cases hc : f.contains v.name <;> simp [hc]

end Frames

namespace Value

variable {a b c x : Value}

theorem concat_defined (h : concat a b = .ok x) : x ≠ .undefined := by
  rintro rfl
  simp only [concat] at h
  split at h <;> cases h

theorem strlen_defined (h : strlen a = .ok x) : x ≠ .undefined := by
  rintro rfl
  simp only [strlen] at h
  split at h <;> cases h

theorem getChar_defined (h : getChar a b = .ok x) : x ≠ .undefined := by
  rintro rfl
  simp only [getChar] at h
  split at h
  · obtain ⟨c, -, h⟩ := Except.map_eq_ok.1 h
    cases h
  · cases h

theorem setChar_defined (h : setChar a b c = .ok x) : x ≠ .undefined := by
  rintro rfl
  simp only [setChar] at h
  split at h
  · obtain ⟨_, -, h⟩ := Except.bind_eq_ok.1 h
    split at h <;> cases h
  · cases h

theorem ofLine_defined {type : String} {line : Option String} (h : ofLine type line = .ok x) :
    x ≠ .undefined := by
  simp only [ofLine] at h
  split at h
  · next t _ =>
    cases h
    cases hv : line.bind t.read? with
    | none => exact Value.noConfusion
    | some y =>
      obtain ⟨s, -, hs⟩ := Option.bind_eq_some_iff.1 hv
      rintro rfl
      cases t <;> simp [ReadType.read?] at hs
  · cases h

end Value

theorem BinaryOp.apply_defined {op : BinaryOp} {a b x : Value} (h : op.apply a b = .ok x) :
    x ≠ .undefined := by
  rintro rfl
  simp only [apply] at h
  split at h
  all_goals first
    | cases h
    | split at h <;> cases h
    | obtain ⟨_, -, h⟩ := Except.map_eq_ok.1 h
      cases h

theorem UnaryOp.apply_defined {op : UnaryOp} {a x : Value} (h : op.apply a = .ok x) :
    x ≠ .undefined := by
  rintro rfl
  simp only [apply] at h
  split at h
  case h_4 =>
    split at h
    · split at h <;> cases h
    · cases h
  all_goals first
    | cases h
    | split at h <;> cases h

namespace Opcode

/-- The frames after an instruction has moved them about, before it writes to one. -/
def arrange : Opcode → Frames → Frames
  | .createFrame, fs => { fs with temporary := some {} }
  | .pushFrame, fs => { fs with locals := fs.temporary.toList ++ fs.locals, temporary := none }
  | .popFrame, fs => { fs with locals := fs.locals.tail, temporary := fs.locals.head? }
  | _, fs => fs

variable {fs fs' : Frames}

theorem arrange_pushFrame (h : fs.push = .ok fs') : arrange .pushFrame fs = fs' := by
  simp only [Frames.push] at h
  split at h
  · next f hf =>
    cases h
    rw [arrange, hf, Option.toList_some, List.singleton_append]
  · cases h

theorem arrange_popFrame (h : fs.pop = .ok fs') : arrange .popFrame fs = fs' := by
  simp only [Frames.pop] at h
  split at h
  · next f l hf =>
    cases h
    rw [arrange, hf, List.tail_cons, List.head?_cons]
  · cases h

end Opcode

/-- One variable is assigned a value. -/
def Frames.Assigns (fs fs' : Frames) : Prop := ∃ v x, x ≠ Value.undefined ∧ fs.set v x = .ok fs'

namespace Instruction

/-- What an instruction makes of the frames: it moves them, assigns a variable, or defines one. -/
inductive Reframes (i : Instruction) (fs : Frames) : Frames → Prop
  | arranged : Reframes i fs (i.opcode.arrange fs)
  | assigned {fs' : Frames} : (i.opcode.arrange fs).Assigns fs' → Reframes i fs fs'
  | defined {v : VarRef} {fs' : Frames} :
      i.opcode = .defVar → fs.define v = .ok fs' → Reframes i fs fs'

theorem Reframes.of_arrange {i : Instruction} {fs fs' : Frames} (h : i.opcode.arrange fs = fs') :
    i.Reframes fs fs' := h ▸ .arranged

variable {i : Instruction} {fs fs' : Frames} {m m' : Machine} {flow : Flow} {k : Nat} {x : Value}

theorem held_defined (h : i.held fs k = .ok x) : x ≠ .undefined := by
  obtain ⟨y, -, h⟩ := Except.bind_eq_ok.1 h
  rintro rfl
  simp only [Value.present] at h
  split at h
  · cases h
  · next hy =>
    cases h
    exact hy rfl

theorem unaryFrames_assigns {op : Value → Except Fault Value}
    (hop : ∀ {a x}, a ≠ .undefined → op a = .ok x → x ≠ .undefined)
    (h : i.unaryFrames fs op = .ok fs') : fs.Assigns fs' := by
  obtain ⟨v, -, h⟩ := Except.bind_eq_ok.1 h
  obtain ⟨y, hy, h⟩ := Except.bind_eq_ok.1 h
  obtain ⟨a, ha, h⟩ := Except.bind_eq_ok.1 h
  obtain ⟨x, hx, h⟩ := Except.bind_eq_ok.1 h
  exact ⟨v, x, hop (held_defined (Except.bind_eq_ok.2 ⟨y, hy, ha⟩)) hx, h⟩

theorem binaryFrames_assigns {op : Value → Value → Except Fault Value}
    (hop : ∀ {a b x}, op a b = .ok x → x ≠ .undefined)
    (h : i.binaryFrames fs op = .ok fs') : fs.Assigns fs' := by
  simp only [binaryFrames, Except.bind_eq_ok] at h
  obtain ⟨v, -, _, -, _, -, a, -, b, -, x, hx, h⟩ := h
  exact ⟨v, x, hop hx, h⟩

theorem setCharFrames_assigns (h : i.setCharFrames fs = .ok fs') : fs.Assigns fs' := by
  simp only [setCharFrames, Except.bind_eq_ok] at h
  obtain ⟨v, -, _, -, _, -, _, -, s, -, n, -, r, -, x, hx, h⟩ := h
  exact ⟨v, x, Value.setChar_defined hx, h⟩

theorem typeFrames_assigns (h : i.typeFrames fs = .ok fs') : fs.Assigns fs' := by
  simp only [typeFrames, Except.bind_eq_ok] at h
  obtain ⟨v, -, x, -, h⟩ := h
  exact ⟨v, _, Value.noConfusion, h⟩

theorem Reframes.of_reframe? {F : Frames → Except Fault Frames} (hF : i.reframe? = some F)
    (h : F fs = .ok fs') : i.Reframes fs fs' := by
  cases ho : i.opcode <;> simp only [reframe?, ho, reduceCtorEq, Option.some.injEq] at hF <;>
    subst hF
  case move => exact .assigned (ho ▸ unaryFrames_assigns (fun ha hx ↦ Except.ok.inj hx ▸ ha) h)
  case createFrame => exact .of_arrange (by rw [ho]; exact Except.ok.inj h)
  case pushFrame => exact .of_arrange (by rw [ho, Opcode.arrange_pushFrame h])
  case popFrame => exact .of_arrange (by rw [ho, Opcode.arrange_popFrame h])
  case defVar =>
    obtain ⟨v, -, h⟩ := Except.bind_eq_ok.1 h
    exact .defined ho h
  case binary op => exact .assigned (ho ▸ binaryFrames_assigns BinaryOp.apply_defined h)
  case unary op => exact .assigned (ho ▸ unaryFrames_assigns (fun _ ↦ UnaryOp.apply_defined) h)
  case concat => exact .assigned (ho ▸ binaryFrames_assigns Value.concat_defined h)
  case strlen => exact .assigned (ho ▸ unaryFrames_assigns (fun _ ↦ Value.strlen_defined) h)
  case getChar => exact .assigned (ho ▸ binaryFrames_assigns Value.getChar_defined h)
  case setChar => exact .assigned (ho ▸ setCharFrames_assigns h)
  case type => exact .assigned (ho ▸ typeFrames_assigns h)

namespace Completes

variable (hm : .undefined ∉ m.operands) (h : i.Completes m flow m')

include hm h

/-- An assigned value is one that an argument held, the result of an operation, a value read or one
taken off the operand stack; none of these is undefined. -/
theorem reframes : i.Reframes m.frames m'.frames := by
  cases h with
  | reframe hF hfs => exact .of_reframe? hF hfs
  | pops ho _ hr hfs =>
    have hx : _ ≠ Value.undefined := fun hx ↦ hm (hx ▸ hr ▸ List.mem_cons_self)
    exact .assigned (ho ▸ ⟨_, _, hx, hfs⟩)
  | read ho _ _ hx hfs => exact .assigned (ho ▸ ⟨_, _, Value.ofLine_defined hx, hfs⟩)
  | call ho | ret ho | pushs ho | clears ho | write ho | label ho | jump ho | jumpIf ho | exit ho
  | dprint ho | breakpoint ho | binaryStack ho | unaryStack ho | jumpIfStack ho =>
    exact .of_arrange (by rw [ho]; rfl)

theorem operands_defined : .undefined ∉ m'.operands := by
  have rest {l r : List Value} (hr : m.operands = l ++ r) : .undefined ∉ r :=
    fun hu ↦ hm (hr ▸ List.mem_append_right l hu)
  have pushed {x : Value} {r : List Value} (hx : x ≠ .undefined) (hr : .undefined ∉ r) :
      .undefined ∉ x :: r := List.not_mem_cons_of_ne_of_not_mem hx.symm hr
  cases h with
  | reframe | call | ret | read | write | label | jump | jumpIf | exit | dprint | breakpoint =>
    exact hm
  | clears => exact List.not_mem_nil
  | pushs _ hx => exact pushed (held_defined hx) hm
  | @pops _ x r _ _ _ hr => exact rest (l := [x]) hr
  | @binaryStack _ a b x r _ hr hx =>
    exact pushed (BinaryOp.apply_defined hx) (rest (l := [b, a]) hr)
  | @unaryStack _ a x r _ hr hx => exact pushed (UnaryOp.apply_defined hx) (rest (l := [a]) hr)
  | @jumpIfStack _ _ a b r _ _ _ hr => exact rest (l := [b, a]) hr

end Completes

end Instruction

end ThreeAddress

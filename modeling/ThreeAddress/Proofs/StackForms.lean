import Mathlib
import ThreeAddress.Proofs.StraightLine

namespace ThreeAddress

open Effect

namespace Machine

variable {m n : Machine} {v : VarRef} {a b : Argument} {l : String} {k : Nat}

/-- The code of `m` for one instruction that stores in `v` the result of an operation on the
arguments `as` does the same as the code of `n` in `k` instructions. -/
structure SameStore (m n : Machine) (k : Nat) (v : VarRef) (as : List Argument) : Prop where
  success : (m.run 1).2 = none ↔ (n.run k).2 = none
  result : (m.run 1).2 = none → ∃ fs,
    m.run 1 = ({ m with frames := fs, executed := m.executed + 1, pc := m.pc + 1 }, none) ∧
    n.run k = ({ n with frames := fs, executed := n.executed + k, pc := n.pc + k }, none)
  failure : (∃ x, m.frames.get v = .ok x) → (∀ a ∈ as, ∃ x, a.held m.frames = .ok x) →
    ∀ f, m.FailsWith 1 f ↔ n.FailsWith k f

theorem SameStore.of_runs {as : List Argument} {r s : Except Fault Frames}
    (hm : m.Runs 1 (r.map fun fs ↦
      { m with frames := fs, executed := m.executed + 1, pc := m.pc + 1 }))
    (hn : n.Runs k (s.map fun fs ↦
      { n with frames := fs, executed := n.executed + k, pc := n.pc + k }))
    (hok : ∀ fs, r = .ok fs ↔ s = .ok fs)
    (herror : (∃ x, m.frames.get v = .ok x) → (∀ a ∈ as, ∃ x, a.held m.frames = .ok x) → r = s) :
    SameStore m n k v as where
  success := by
    rw [hm.none_iff, hn.none_iff]
    cases r with
    | ok fs => simp [(hok fs).1 rfl, Except.map]
    | error f =>
      cases s with
      | ok fs => cases (hok fs).2 rfl
      | error f' => simp [Except.map]
  result := by
    intro h
    obtain ⟨m', hm'⟩ := hm.none_iff.1 h
    cases r with
    | ok fs =>
      obtain rfl := (hok fs).1 rfl
      exact ⟨fs, hm, hn⟩
    | error f => cases hm'
  failure := by
    intro hv has f
    rw [hm.failsWith_iff, hn.failsWith_iff]
    obtain rfl := herror hv has
    cases r <;> simp [Except.map]

theorem unary_sameStore (hf : n.frames = m.frames) (ha : a.fits .symb = true) {op : UnaryOp}
    (hm : m.Ahead [(.unary op, [.var v, a])])
    (hn : n.Ahead [(.pushs, [a]), (.unaryStack op, []), (.pops, [.var v])]) :
    SameStore m n 3 v [a] := by
  have hm' := reframe_runs (F := fun fs ↦ (do
      let _ ← fs.get v
      let x ← a.value fs
      let x ← x.present
      let z ← op.apply x
      fs.set v z)) hm fun i ho hargs ↦
    ⟨_, by rw [Instruction.reframe?, ho], Instruction.unaryFrames_var hargs ha _⟩
  have hn' : n.Runs 3 ((do
      let x ← a.held n.frames
      let z ← op.apply x
      let _ ← n.frames.get v
      n.frames.set v z : Except Fault Frames).map fun fs ↦
        { n with frames := fs, executed := n.executed + 3, pc := n.pc + 3 }) := by
    simp only [Except.map_bind]
    refine (pushs_runs hn).bind fun x _ ↦ ?_
    have hn1 := hn.tail (n := passed { n with operands := x :: n.operands }) rfl rfl
    refine (unaryStack_runs hn1 rfl).bind fun z _ ↦ ?_
    rw [← Except.map_bind]
    exact pops_runs (hn1.tail rfl rfl) rfl
  refine .of_runs hm' hn' ?_ ?_
  · intro fs
    simp only [hf, Argument.held, Except.bind_eq_ok]
    constructor
    · rintro ⟨u, hu, x, hx, x', hx', z, hz, hs⟩
      exact ⟨x', ⟨x, hx, hx'⟩, z, hz, u, hu, hs⟩
    · rintro ⟨x', ⟨x, hx, hx'⟩, z, hz, u, hu, hs⟩
      exact ⟨u, hu, x, hx, x', hx', z, hz, hs⟩
  · rintro ⟨u, hu⟩ has
    obtain ⟨x, hx⟩ := has a (by simp)
    obtain ⟨x', hx, hx'⟩ := Except.bind_eq_ok.1 hx
    simp only [hf, Argument.held, hu, hx, hx', Except.ok_bind]

theorem binary_sameStore (hf : n.frames = m.frames) (ha : a.fits .symb = true)
    (hb : b.fits .symb = true) {op : BinaryOp}
    (hm : m.Ahead [(.binary op, [.var v, a, b])])
    (hn : n.Ahead [(.pushs, [a]), (.pushs, [b]), (.binaryStack op, []), (.pops, [.var v])]) :
    SameStore m n 4 v [a, b] := by
  have hm' := reframe_runs (F := fun fs ↦ (do
      let _ ← fs.get v
      let x ← a.value fs
      let y ← b.value fs
      let x ← x.present
      let y ← y.present
      let z ← op.apply x y
      fs.set v z)) hm fun i ho hargs ↦
    ⟨_, by rw [Instruction.reframe?, ho], Instruction.binaryFrames_var hargs ha hb _⟩
  have hn' : n.Runs 4 ((do
      let x ← a.held n.frames
      let y ← b.held n.frames
      let z ← op.apply x y
      let _ ← n.frames.get v
      n.frames.set v z : Except Fault Frames).map fun fs ↦
        { n with frames := fs, executed := n.executed + 4, pc := n.pc + 4 }) := by
    simp only [Except.map_bind]
    refine (pushs_runs hn).bind fun x _ ↦ ?_
    have hn1 := hn.tail (n := passed { n with operands := x :: n.operands }) rfl rfl
    refine (pushs_runs hn1).bind fun y _ ↦ ?_
    have hn2 := hn1.tail (n := passed { passed { n with operands := x :: n.operands } with
      operands := y :: x :: n.operands }) rfl rfl
    refine (binaryStack_runs hn2 rfl).bind fun z _ ↦ ?_
    rw [← Except.map_bind]
    exact pops_runs (hn2.tail rfl rfl) rfl
  refine .of_runs hm' hn' ?_ ?_
  · intro fs
    simp only [hf, Argument.held, Except.bind_eq_ok]
    constructor
    · rintro ⟨u, hu, x, hx, y, hy, x', hx', y', hy', z, hz, hs⟩
      exact ⟨x', ⟨x, hx, hx'⟩, y', ⟨y, hy, hy'⟩, z, hz, u, hu, hs⟩
    · rintro ⟨x', ⟨x, hx, hx'⟩, y', ⟨y, hy, hy'⟩, z, hz, u, hu, hs⟩
      exact ⟨u, hu, x, hx, y, hy, x', hx', y', hy', z, hz, hs⟩
  · rintro ⟨u, hu⟩ has
    obtain ⟨x, hx⟩ := has a (by simp)
    obtain ⟨y, hy⟩ := has b (by simp)
    obtain ⟨x', hx, hx'⟩ := Except.bind_eq_ok.1 hx
    obtain ⟨y', hy, hy'⟩ := Except.bind_eq_ok.1 hy
    simp only [hf, Argument.held, hu, hx, hx', hy, hy', Except.ok_bind]

theorem branch_ok {c : Condition} {t : Nat} {x y : Value} {taken : Bool}
    (h : c.holds x y = .ok taken) :
    Instruction.branch c t x y m = .ok (if taken then .jump t else .next) m := by
  simp only [Instruction.branch, h, bind_apply, attempt_ok, pure_apply]

theorem branch_error {c : Condition} {t : Nat} {x y : Value} {f : Fault}
    (h : c.holds x y = .error f) : Instruction.branch c t x y m = .error f m := by
  simp only [Instruction.branch, h, bind_apply, attempt_error]

theorem follow_branch (t : Nat) (taken : Bool) :
    m.follow (if taken then .jump t else .next) = ({ m with
      executed := m.executed + 1
      pc := if taken then t else m.pc + 1 }, none) := by
  cases taken <;> rfl

theorem jumpIf_runs (ha : a.fits .symb = true) (hb : b.fits .symb = true) {c : Condition}
    (h : m.Ahead [(.jumpIf c, [.label l, a, b])]) :
    m.Runs 1 ((do
      let t ← m.labels.seek l
      let x ← a.held m.frames
      let y ← b.held m.frames
      let taken ← c.holds x y
      Except.ok (t, taken) : Except Fault (Nat × Bool)).map fun p ↦
        { m with executed := m.executed + 1, pc := if p.2 then p.1 else m.pc + 1 }) := by
  obtain ⟨i, hi, ho, hargs⟩ := h.head
  have ht : i.goal m.labels = m.labels.seek l := Instruction.goal_label (by rw [hargs]; rfl)
  have h1 : i.operand m.frames 1 >>= Value.present = a.held m.frames := by
    rw [Instruction.operand_symb (by rw [hargs]; rfl) ha, Argument.held]
  have h2 : i.operand m.frames 2 >>= Value.present = b.held m.frames := by
    rw [Instruction.operand_symb (by rw [hargs]; rfl) hb, Argument.held]
  have hstep : i.step m = (do
      let t ← i.target
      let x ← i.definedSymbol 1
      let y ← i.definedSymbol 2
      Instruction.branch c t x y) m := by
    simp only [Instruction.step, ho]
  simp only [Instruction.target_eq, Instruction.definedSymbol_eq, reading, consult_bind_apply, ht,
    h1, h2] at hstep
  refine .of_advance hi ?_ ?_
  · intro p hp
    obtain ⟨t, ht, hp⟩ := Except.bind_eq_ok.1 hp
    obtain ⟨x, hx, hp⟩ := Except.bind_eq_ok.1 hp
    obtain ⟨y, hy, hp⟩ := Except.bind_eq_ok.1 hp
    obtain ⟨taken, hc, hp⟩ := Except.bind_eq_ok.1 hp
    cases hp
    simp only [ht, hx, hy, branch_ok hc] at hstep
    rw [advance_of_ok hi hstep, follow_branch]
  · intro f hp
    refine ⟨m, ?_⟩
    rw [hstep]
    rcases Except.bind_eq_error.1 hp with ht | ⟨t, ht, hp⟩
    · simp only [ht]
    rcases Except.bind_eq_error.1 hp with hx | ⟨x, hx, hp⟩
    · simp only [ht, hx]
    rcases Except.bind_eq_error.1 hp with hy | ⟨y, hy, hp⟩
    · simp only [ht, hx, hy]
    rcases Except.bind_eq_error.1 hp with hc | ⟨taken, hc, hp⟩
    · simp only [ht, hx, hy, branch_error hc]
    · cases hp

theorem jumpIfStack_runs {c : Condition} {x y : Value} {rest : List Value}
    (h : m.Ahead [(.jumpIfStack c, [.label l])]) (ho : m.operands = y :: x :: rest) :
    m.Runs 1 ((do
      let t ← m.labels.seek l
      let taken ← c.holds x y
      Except.ok (t, taken) : Except Fault (Nat × Bool)).map fun p ↦ { m with
        operands := rest
        executed := m.executed + 1
        pc := if p.2 then p.1 else m.pc + 1 }) := by
  obtain ⟨i, hi, hi', hargs⟩ := h.head
  have ht : i.goal m.labels = m.labels.seek l := Instruction.goal_label (by rw [hargs]; rfl)
  have hstep : i.step m = (do
      let t ← i.target
      let y ← pop
      let x ← pop
      Instruction.branch c t x y) m := by
    simp only [Instruction.step, hi']
  simp only [Instruction.target_eq, consult_bind_apply, ht] at hstep
  refine .of_advance hi ?_ ?_
  · intro p hp
    obtain ⟨t, ht, hp⟩ := Except.bind_eq_ok.1 hp
    obtain ⟨taken, hc, hp⟩ := Except.bind_eq_ok.1 hp
    cases hp
    simp only [ht, bind_apply, pop_apply, ho, branch_ok hc] at hstep
    rw [advance_of_ok hi hstep, follow_branch]
  · intro f hp
    rw [hstep]
    rcases Except.bind_eq_error.1 hp with ht | ⟨t, ht, hp⟩
    · exact ⟨m, by simp only [ht]⟩
    rcases Except.bind_eq_error.1 hp with hc | ⟨taken, hc, hp⟩
    · simp only [ht, bind_apply, pop_apply, ho, branch_error hc]
      exact ⟨_, rfl⟩
    · cases hp

/-- The operands of a conditional jump are compared, and its label leads to `target`. -/
structure Decides (m : Machine) (c : Condition) (l : String) (a b : Argument) (taken : Bool)
    (target : Nat) : Prop where
  holds : ∃ x y, a.held m.frames = .ok x ∧ b.held m.frames = .ok y ∧ c.holds x y = .ok taken
  leads : m.labels.target? l = some target

variable {c : Condition} {taken : Bool} {target : Nat}

theorem jumpIf_run (ha : a.fits .symb = true) (hb : b.fits .symb = true)
    (hm : m.Ahead [(.jumpIf c, [.label l, a, b])]) (h : m.Decides c l a b taken target) :
    m.run 1 = ({ m with
      executed := m.executed + 1
      pc := if taken then target else m.pc + 1 }, none) := by
  obtain ⟨⟨x, y, hx, hy, hc⟩, ht⟩ := h
  have hr := jumpIf_runs ha hb hm
  simp only [Labels.seek_ok.2 ht, hx, hy, hc, Except.ok_bind] at hr
  exact hr

theorem jumpIf_decides (ha : a.fits .symb = true) (hb : b.fits .symb = true)
    (hm : m.Ahead [(.jumpIf c, [.label l, a, b])]) (h : (m.run 1).2 = none) :
    ∃ taken target, m.Decides c l a b taken target := by
  obtain ⟨m', h⟩ := (jumpIf_runs ha hb hm).none_iff.1 h
  obtain ⟨p, h, -⟩ := Except.map_eq_ok.1 h
  obtain ⟨t, ht, h⟩ := Except.bind_eq_ok.1 h
  obtain ⟨x, hx, h⟩ := Except.bind_eq_ok.1 h
  obtain ⟨y, hy, h⟩ := Except.bind_eq_ok.1 h
  obtain ⟨taken, hc, -⟩ := Except.bind_eq_ok.1 h
  exact ⟨taken, t, ⟨x, y, hx, hy, hc⟩, Labels.seek_ok.1 ht⟩

theorem stackJump_runs
    (hm : m.Ahead [(.pushs, [a]), (.pushs, [b]), (.jumpIfStack c, [.label l])]) :
    m.Runs 3 ((do
      let x ← a.held m.frames
      let y ← b.held m.frames
      let t ← m.labels.seek l
      let taken ← c.holds x y
      Except.ok (t, taken) : Except Fault (Nat × Bool)).map fun p ↦
        { m with executed := m.executed + 3, pc := if p.2 then p.1 else m.pc + 3 }) := by
  simp only [Except.map_bind]
  refine (pushs_runs hm).bind fun x _ ↦ ?_
  have hm1 := hm.tail (n := passed { m with operands := x :: m.operands }) rfl rfl
  refine (pushs_runs hm1).bind fun y _ ↦ ?_
  have hm2 := hm1.tail (n := passed { passed { m with operands := x :: m.operands } with
    operands := y :: x :: m.operands }) rfl rfl
  simp only [← Except.map_bind]
  exact jumpIfStack_runs hm2 rfl

theorem stackJump_run
    (hm : m.Ahead [(.pushs, [a]), (.pushs, [b]), (.jumpIfStack c, [.label l])])
    (h : m.Decides c l a b taken target) :
    m.run 3 = ({ m with
      executed := m.executed + 3
      pc := if taken then target else m.pc + 3 }, none) := by
  obtain ⟨⟨x, y, hx, hy, hc⟩, ht⟩ := h
  have hr := stackJump_runs hm
  simp only [Labels.seek_ok.2 ht, hx, hy, hc, Except.ok_bind] at hr
  exact hr

theorem stackJump_decides
    (hm : m.Ahead [(.pushs, [a]), (.pushs, [b]), (.jumpIfStack c, [.label l])])
    (h : (m.run 3).2 = none) : ∃ taken target, m.Decides c l a b taken target := by
  obtain ⟨m', h⟩ := (stackJump_runs hm).none_iff.1 h
  obtain ⟨p, h, -⟩ := Except.map_eq_ok.1 h
  obtain ⟨x, hx, h⟩ := Except.bind_eq_ok.1 h
  obtain ⟨y, hy, h⟩ := Except.bind_eq_ok.1 h
  obtain ⟨t, ht, h⟩ := Except.bind_eq_ok.1 h
  obtain ⟨taken, hc, -⟩ := Except.bind_eq_ok.1 h
  exact ⟨taken, t, ⟨x, y, hx, hy, hc⟩, Labels.seek_ok.1 ht⟩

theorem Decides.transfer (hf : n.frames = m.frames)
    (hl : (n.labels.target? l).isSome = (m.labels.target? l).isSome)
    (h : m.Decides c l a b taken target) : ∃ t, n.Decides c l a b taken t := by
  obtain ⟨hc, ht⟩ := h
  rw [ht, Option.isSome_some] at hl
  obtain ⟨t, ht⟩ := Option.isSome_iff_exists.1 hl
  rw [← hf] at hc
  exact ⟨t, hc, ht⟩

/-- The code of `m` for one conditional jump to `l` does the same as the code of `n` in `k`
instructions. -/
structure SameJump (m n : Machine) (k : Nat) (c : Condition) (l : String) (a b : Argument) :
    Prop where
  success : (m.run 1).2 = none ↔ (n.run k).2 = none
  result : (m.run 1).2 = none → ∃ taken s t,
    m.Decides c l a b taken s ∧ n.Decides c l a b taken t ∧
    m.run 1 =
      ({ m with executed := m.executed + 1, pc := if taken then s else m.pc + 1 }, none) ∧
    n.run k = ({ n with executed := n.executed + k, pc := if taken then t else n.pc + k }, none)

theorem jump_sameJump (hf : n.frames = m.frames) (ha : a.fits .symb = true)
    (hb : b.fits .symb = true) (hl : (n.labels.target? l).isSome = (m.labels.target? l).isSome)
    (hm : m.Ahead [(.jumpIf c, [.label l, a, b])])
    (hn : n.Ahead [(.pushs, [a]), (.pushs, [b]), (.jumpIfStack c, [.label l])]) :
    SameJump m n 3 c l a b := by
  constructor
  · constructor
    · intro h
      obtain ⟨taken, s, hs⟩ := jumpIf_decides ha hb hm h
      obtain ⟨t, ht⟩ := hs.transfer hf hl
      rw [stackJump_run hn ht]
    · intro h
      obtain ⟨taken, t, ht⟩ := stackJump_decides hn h
      obtain ⟨s, hs⟩ := ht.transfer hf.symm hl.symm
      rw [jumpIf_run ha hb hm hs]
  · intro h
    obtain ⟨taken, s, hs⟩ := jumpIf_decides ha hb hm h
    obtain ⟨t, ht⟩ := hs.transfer hf hl
    exact ⟨taken, s, t, hs, ht, jumpIf_run ha hb hm hs, stackJump_run hn ht⟩

/-- The stack forms agree with the three-address forms on success, on all that they change and,
where the operands are there, on the fault. -/
theorem stack_forms_agree (hf : n.frames = m.frames) :
    (∀ op v a b, a.fits .symb = true → b.fits .symb = true →
      m.Ahead [(.binary op, [.var v, a, b])] →
      n.Ahead [(.pushs, [a]), (.pushs, [b]), (.binaryStack op, []), (.pops, [.var v])] →
      SameStore m n 4 v [a, b]) ∧
    (∀ op v a, a.fits .symb = true →
      m.Ahead [(.unary op, [.var v, a])] →
      n.Ahead [(.pushs, [a]), (.unaryStack op, []), (.pops, [.var v])] →
      SameStore m n 3 v [a]) ∧
    (∀ c l a b, a.fits .symb = true → b.fits .symb = true →
      (n.labels.target? l).isSome = (m.labels.target? l).isSome →
      m.Ahead [(.jumpIf c, [.label l, a, b])] →
      n.Ahead [(.pushs, [a]), (.pushs, [b]), (.jumpIfStack c, [.label l])] →
      SameJump m n 3 c l a b) := by
  refine ⟨?_, ?_, ?_⟩
  · intro op v a b ha hb hm hn
    exact binary_sameStore hf ha hb hm hn
  · intro op v a ha hm hn
    exact unary_sameStore hf ha hm hn
  · intro c l a b ha hb hl hm hn
    exact jump_sameJump hf ha hb hl hm hn

/-- The destination is an operand here, and the divisor is zero. -/
theorem stack_forms_agree_idiv :
    ∃ m n : Machine, n.frames = m.frames ∧
      m.Ahead [(.binary .idiv, [.var ⟨.gf, "x"⟩, .var ⟨.gf, "x"⟩, .literal (.int 0)])] ∧
      n.Ahead [(.pushs, [.var ⟨.gf, "x"⟩]), (.pushs, [.literal (.int 0)]),
        (.binaryStack .idiv, []), (.pops, [.var ⟨.gf, "x"⟩])] ∧
      m.FailsWith 1 .divisionByZero ∧ n.FailsWith 4 .divisionByZero := by
  let x : VarRef := ⟨.gf, "x"⟩
  let fs : Frames := { globals := ⟨[("x", .int 7)]⟩ }
  let m : Machine := {
    program := ⟨[⟨1, .binary .idiv, [.var x, .var x, .literal (.int 0)]⟩], by simp⟩
    frames := fs }
  let n : Machine := {
    program := ⟨[⟨1, .pushs, [.var x]⟩, ⟨2, .pushs, [.literal (.int 0)]⟩,
      ⟨3, .binaryStack .idiv, []⟩, ⟨4, .pops, [.var x]⟩], by simp⟩
    frames := fs }
  have hm : m.Ahead [(.binary .idiv, [.var x, .var x, .literal (.int 0)])] := ⟨[], rfl⟩
  have hn : n.Ahead [(.pushs, [.var x]), (.pushs, [.literal (.int 0)]), (.binaryStack .idiv, []),
      (.pops, [.var x])] := ⟨[], rfl⟩
  have hfail : m.FailsWith 1 .divisionByZero := ⟨⟨.divisionByZero, 1, .binary .idiv⟩, by cbv, rfl⟩
  have hsame := (stack_forms_agree (m := m) (n := n) rfl).1 .idiv x _ _ rfl rfl hm hn
  refine ⟨m, n, rfl, hm, hn, hfail, (hsame.failure ⟨.int 7, by cbv⟩ ?_ _).1 hfail⟩
  intro a ha
  simp only [List.mem_cons, List.not_mem_nil, or_false] at ha
  rcases ha with rfl | rfl
  · exact ⟨.int 7, by cbv⟩
  · exact ⟨.int 0, by cbv⟩

end Machine

end ThreeAddress

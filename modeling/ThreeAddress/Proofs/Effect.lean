import ThreeAddress.Effect

namespace ThreeAddress.Effect

variable {α β : Type} {m m' : Machine} {f : Fault}

theorem bind_apply (x : Effect α) (g : α → Effect β) (m : Machine) :
    (x >>= g) m = match x m with
      | .ok a m' => g a m'
      | .error f m' => .error f m' := by
  cases h : x m <;> simp only [bind, EStateM.bind, h]

theorem bind_ok {x : Effect α} {g : α → Effect β} {b : β} :
    (x >>= g) m = .ok b m' ↔ ∃ a m₁, x m = .ok a m₁ ∧ g a m₁ = .ok b m' := by
  rw [bind_apply]
  constructor
  · intro h
    cases hx : x m with
    | ok a m₁ => exact ⟨a, m₁, rfl, by simpa only [hx] using h⟩
    | error e m₁ => simp only [hx, reduceCtorEq] at h
  · rintro ⟨a, m₁, hx, h⟩
    simpa only [hx] using h

theorem bind_error {x : Effect α} {g : α → Effect β} :
    (x >>= g) m = .error f m' ↔
      x m = .error f m' ∨ ∃ a m₁, x m = .ok a m₁ ∧ g a m₁ = .error f m' := by
  rw [bind_apply]
  constructor
  · intro h
    cases hx : x m with
    | ok a m₁ => exact .inr ⟨a, m₁, rfl, by simpa only [hx] using h⟩
    | error e m₁ =>
      simp only [hx] at h
      cases h
      exact .inl rfl
  · rintro (hx | ⟨a, m₁, hx, h⟩)
    · simp only [hx]
    · simpa only [hx] using h

@[simp] theorem pure_apply (a : α) (m : Machine) : (pure a : Effect α) m = .ok a m := rfl

@[simp] theorem get_apply (m : Machine) : (get : Effect Machine) m = .ok m m := rfl

@[simp] theorem throw_apply (f : Fault) (m : Machine) :
    (throw f : Effect α) m = .error f m := rfl

@[simp] theorem attempt_ok (a : α) (m : Machine) : attempt (.ok a) m = .ok a m := rfl

@[simp] theorem attempt_error (f : Fault) (m : Machine) :
    (attempt (.error f) : Effect α) m = .error f m := rfl

@[simp] theorem push_apply (x : Value) (m : Machine) :
    push x m = .ok () { m with operands := x :: m.operands } := rfl

@[simp] theorem pushCall_apply (n : Nat) (m : Machine) :
    pushCall n m = .ok () { m with calls := n :: m.calls } := rfl

@[simp] theorem readLine_apply (m : Machine) :
    readLine m = .ok (Text.takeLine m.input).1 { m with input := (Text.takeLine m.input).2 } := rfl

@[simp] theorem printOutput_apply (text : String) (m : Machine) :
    printOutput text m =
      .ok (m.output.write text).2 { m with output := (m.output.write text).1 } := rfl

@[simp] theorem printDiagnostics_apply (text : String) (m : Machine) :
    printDiagnostics text m =
      .ok (m.diagnostics.write text).2 { m with diagnostics := (m.diagnostics.write text).1 } := rfl

theorem changeFrames_apply (F : Frames → Except Fault Frames) (m : Machine) :
    changeFrames F m = match F m.frames with
      | .ok fs => .ok () { m with frames := fs }
      | .error f => .error f m := by
  simp only [changeFrames, bind_apply, get_apply]
  cases F m.frames <;> rfl

theorem pop_apply (m : Machine) :
    pop m = match m.operands with
      | x :: r => .ok x { m with operands := r }
      | [] => .error .emptyOperandStack m := by
  simp only [pop, bind_apply, get_apply]
  cases m.operands <;> rfl

theorem popCall_apply (m : Machine) :
    popCall m = match m.calls with
      | n :: r => .ok n { m with calls := r }
      | [] => .error .emptyCallStack m := by
  simp only [popCall, bind_apply, get_apply]
  cases m.calls <;> rfl

theorem require_apply (b : Bool) (f : Fault) (m : Machine) :
    require b f m = if b then .ok () m else .error f m := by
  cases b <;> rfl

/-- Looks at the machine, and changes nothing. -/
def consult (r : Machine → Except Fault α) : Effect α := fun m ↦ attempt (r m) m

def reading (r : Frames → Except Fault α) : Effect α := consult fun m ↦ r m.frames

theorem consult_bind_apply (r : Machine → Except Fault α) (g : α → Effect β) (m : Machine) :
    (consult r >>= g) m = match r m with
      | .ok a => g a m
      | .error f => .error f m := by
  simp only [bind_apply, consult]
  cases r m <;> rfl

theorem consult_error {r : Machine → Except Fault α} :
    consult r m = .error f m' ↔ r m = .error f ∧ m' = m := by
  simp only [consult]
  cases r m with
  | ok a => simp
  | error e => simp [eq_comm]

theorem consult_ok {r : Machine → Except Fault α} {a : α} :
    consult r m = .ok a m' ↔ r m = .ok a ∧ m' = m := by
  simp only [consult]
  cases r m with
  | ok b => simp [eq_comm]
  | error e => simp

theorem consult_bind_consult (r : Machine → Except Fault α) (s : α → Machine → Except Fault β) :
    (consult r >>= fun a ↦ consult (s a)) = consult fun m ↦ r m >>= fun a ↦ s a m := by
  funext m
  simp only [consult_bind_apply, consult]
  cases r m <;> rfl

theorem reading_bind_reading (r : Frames → Except Fault α) (s : α → Frames → Except Fault β) :
    (reading r >>= fun a ↦ reading (s a)) = reading fun fs ↦ r fs >>= fun a ↦ s a fs := by
  simp only [reading, consult_bind_consult]

theorem reading_bind_changeFrames (r : Frames → Except Fault α)
    (F : α → Frames → Except Fault Frames) :
    (reading r >>= fun a ↦ changeFrames (F a)) =
      changeFrames fun fs ↦ r fs >>= fun a ↦ F a fs := by
  funext m
  simp only [reading, consult_bind_apply, changeFrames_apply]
  cases r m.frames <;> rfl

theorem value_eq (v : VarRef) : value v = reading (·.get v) := rfl

theorem attempt_eq (r : Except Fault α) : attempt r = reading fun _ ↦ r := rfl

theorem pure_eq (a : α) : (pure a : Effect α) = reading fun _ ↦ .ok a := rfl

@[simp] theorem clear_apply (m : Machine) : clear m = .ok () { m with operands := [] } := rfl

theorem attempt_eq_ok {r : Except Fault α} {a : α} :
    attempt r m = .ok a m' ↔ r = .ok a ∧ m' = m := consult_ok (r := fun _ ↦ r)

theorem attempt_eq_error {r : Except Fault α} :
    attempt r m = .error f m' ↔ r = .error f ∧ m' = m := consult_error (r := fun _ ↦ r)

theorem changeFrames_ok {F : Frames → Except Fault Frames} {u : Unit} :
    changeFrames F m = .ok u m' ↔ ∃ fs, F m.frames = .ok fs ∧ m' = { m with frames := fs } := by
  rw [changeFrames_apply]
  cases F m.frames with
  | ok fs => simp [eq_comm]
  | error e => simp

theorem changeFrames_error {F : Frames → Except Fault Frames} :
    changeFrames F m = .error f m' ↔ F m.frames = .error f ∧ m' = m := by
  rw [changeFrames_apply]
  cases F m.frames with
  | ok fs => simp
  | error e => simp [eq_comm]

theorem pop_ok {x : Value} :
    pop m = .ok x m' ↔ ∃ r, m.operands = x :: r ∧ m' = { m with operands := r } := by
  rw [pop_apply]
  cases m.operands with
  | nil => simp
  | cons y r => simp [eq_comm, and_assoc]

theorem pop_error :
    pop m = .error f m' ↔ m.operands = [] ∧ f = .emptyOperandStack ∧ m' = m := by
  rw [pop_apply]
  cases m.operands with
  | nil => simp [eq_comm]
  | cons y r => simp

theorem popCall_ok {n : Nat} :
    popCall m = .ok n m' ↔ ∃ r, m.calls = n :: r ∧ m' = { m with calls := r } := by
  rw [popCall_apply]
  cases m.calls with
  | nil => simp
  | cons k r => simp [eq_comm, and_assoc]

theorem popCall_error :
    popCall m = .error f m' ↔ m.calls = [] ∧ f = .emptyCallStack ∧ m' = m := by
  rw [popCall_apply]
  cases m.calls with
  | nil => simp [eq_comm]
  | cons k r => simp

theorem require_ok {b : Bool} {e : Fault} {u : Unit} :
    require b e m = .ok u m' ↔ b = true ∧ m' = m := by
  cases b <;> simp [require_apply, eq_comm]

theorem require_error {b : Bool} {e : Fault} :
    require b e m = .error f m' ↔ b = false ∧ f = e ∧ m' = m := by
  cases b <;> simp [require_apply, eq_comm]

end ThreeAddress.Effect

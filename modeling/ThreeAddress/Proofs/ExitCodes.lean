import ThreeAddress.CommandLine
import ThreeAddress.Proofs.Rejection
import ThreeAddress.Proofs.Repetition

namespace ThreeAddress

open Markup

theorem FaultKind.exitCode_range {k : FaultKind} (h : k ≠ .internal) :
    52 ≤ k.exitCode ∧ k.exitCode ≤ 58 := by
  cases k <;> simp_all [exitCode]

theorem Value.exitCode_ok {x : Value} {code : Nat} :
    x.exitCode = .ok code ↔ ∃ n, x = .int n ∧ n.toInt = code ∧ code ≤ 49 := by
  cases x with
  | int n =>
    have hr : (0 ≤ n ∧ n ≤ 49) ↔ (0 ≤ n.toInt ∧ n.toInt ≤ 49) := by
      simp [Int64.le_iff_toInt_le]
    simp only [exitCode, hr, int.injEq, exists_eq_left']
    split
    · next h =>
      rw [Except.ok.injEq]
      omega
    · next h =>
      simp only [reduceCtorEq, false_iff]
      omega
  | _ => simp [exitCode]

namespace Machine

/-- How the execution of a machine ends within `fuel` instructions, and what it leaves behind. -/
inductive Stops (m₀ : Machine) (fuel : Nat) : Outcome → Machine → Prop
  | unresolved {e : RuntimeError} : Labels.resolve m₀.program = .error e →
      Stops m₀ fuel (.failed e) m₀
  | ended {n : Nat} {m : Machine} : n < fuel → m₀.execute n = (m, none) →
      m.instruction? = none → Stops m₀ fuel (.exit 0) m
  | exited {n code : Nat} {m : Machine} {i : Instruction} {x : Int64} : n < fuel →
      m₀.execute n = (m, none) → m.instruction? = some i → i.opcode = .exit →
      i.held m.frames 0 = .ok (.int x) → x.toInt = code → code ≤ 49 →
      Stops m₀ fuel (.exit code) { m with executed := m.executed + 1 }
  | failed {n : Nat} {m m' : Machine} {e : RuntimeError} : n < fuel →
      m₀.execute n = (m, none) → m.advance = (m', some (.failed e)) →
      Stops m₀ fuel (.failed e) m'

variable {m₀ m m' : Machine} {o : Outcome} {e : RuntimeError} {n fuel : Nat}

theorem run_eq_some : m.run fuel = (m', some o) ↔
    ∃ n < fuel, ∃ m₁, m.run n = (m₁, none) ∧ m₁.advance = (m', some o) := by
  induction fuel generalizing m with
  | zero => simp [run]
  | succ fuel ih =>
    constructor
    · intro h
      rw [run] at h
      split at h
      · next m₁ ha =>
        obtain ⟨n, hn, m₂, hr, h₂⟩ := ih.1 h
        exact ⟨n + 1, Nat.succ_lt_succ hn, m₂, (run_of_next ha).trans hr, h₂⟩
      · next ha =>
        cases h
        exact ⟨0, Nat.succ_pos _, m, rfl, ha⟩
    · rintro ⟨n, hn, m₁, hr, h⟩
      cases n with
      | zero =>
        cases hr
        exact run_of_stop h
      | succ n =>
        rw [run] at hr
        split at hr
        · next ha =>
          rw [run_of_next ha]
          exact ih.2 ⟨n, Nat.lt_of_succ_lt_succ hn, m₁, hr, h⟩
        · cases hr

theorem start_of_unresolved (h : Labels.resolve m.program = .error e) : m.start = .error e := by
  rw [start, h]
  rfl

theorem execute_eq_some : m₀.execute fuel = (m', some o) ↔ Stops m₀ fuel o m' := by
  constructor
  · intro h
    cases hs : m₀.start with
    | error e =>
      cases (execute_of_start_error hs fuel).symm.trans h
      exact .unresolved (start_error hs)
    | ok m₁ =>
      rw [execute_of_start hs, run_eq_some] at h
      obtain ⟨n, hn, m, hr, ha⟩ := h
      have he := (execute_of_start hs n).trans hr
      obtain ⟨hi, rfl, rfl⟩ | ⟨i, code, hi, hstep, rfl, rfl⟩ | ⟨i, f, hi, hstep, rfl⟩ :=
        advance_stop ha
      · exact .ended hn he hi
      · obtain ⟨ho, -, x, hx, hc⟩ := (Instruction.Completes.of_step hstep).exit_inv rfl
        obtain ⟨k, rfl, hk, hle⟩ := Value.exitCode_ok.1 hc
        exact .exited hn he hi ho hx hk hle
      · exact .failed hn he ha
  · intro h
    have hrun {n : Nat} {m : Machine} (hn : n < fuel) (he : m₀.execute n = (m, none))
        (ha : m.advance = (m', some o)) : m₀.execute fuel = (m', some o) := by
      cases hs : m₀.start with
      | error e => cases (execute_of_start_error hs n).symm.trans he
      | ok m₁ =>
        rw [execute_of_start hs] at he ⊢
        exact run_eq_some.2 ⟨n, hn, m, he, ha⟩
    cases h with
    | unresolved h => exact execute_of_start_error (start_of_unresolved h) fuel
    | ended hn he hi => exact hrun hn he (by rw [advance, hi])
    | exited hn he hi ho hx hk hle =>
      have hc := Instruction.Completes.exit ho hx (Value.exitCode_ok.2 ⟨_, rfl, hk, hle⟩)
      exact hrun hn he (advance_of_ok hi hc.step)
    | failed hn he ha => exact hrun hn he ha

/-- Both streams take whatever is written. -/
structure Unlimited (m : Machine) : Prop where
  output : m.output.limit = none
  diagnostics : m.diagnostics.limit = none

namespace Unlimited

theorem completes {i : Instruction} {flow : Flow} (hm : m.Unlimited) (h : i.Completes m flow m') :
    m'.Unlimited := by
  cases h <;> exact ⟨hm.output, hm.diagnostics⟩

theorem advance (hm : m.Unlimited) (h : m.advance = (m', none)) : m'.Unlimited := by
  obtain ⟨i, flow, m₁, -, hc, hf⟩ := advance_next h
  have hm₁ := hm.completes hc
  cases flow with
  | exit => cases hf
  | _ =>
    cases hf
    exact ⟨hm₁.output, hm₁.diagnostics⟩

theorem run (hm : m.Unlimited) (h : m.run n = (m', none)) : m'.Unlimited := by
  induction n generalizing m with
  | zero =>
    cases h
    exact hm
  | succ n ih =>
    rw [Machine.run] at h
    split at h
    · next ha => exact ih (hm.advance ha) h
    · cases h

theorem not_refused {i : Instruction} (hm : m.Unlimited) : ¬ i.Refused m := by
  rintro ⟨x, -, ⟨-, h⟩ | ⟨-, h⟩⟩
  · rw [Sink.write_of_limit_none hm.output] at h
    cases h
  · rw [Sink.write_of_limit_none hm.diagnostics] at h
    cases h

end Unlimited

/-- A loaded program whose output is never refused does not fail internally. -/
theorem Stops.kind {text : String} (hp : Program.load text = .ok m₀.program) (hm : m₀.Unlimited)
    (h : Stops m₀ fuel (.failed e) m') : e.fault.kind ≠ .internal := by
  cases h with
  | unresolved h =>
    obtain ⟨name, hf⟩ | ⟨name, hf⟩ := Labels.resolve_error h
    all_goals
      rw [hf]
      simp [Fault.kind]
  | @failed n m _ _ _ he ha =>
    cases hs : m₀.start with
    | error e => cases (execute_of_start_error hs n).symm.trans he
    | ok m₁ =>
      rw [execute_of_start hs] at he
      have hsession : Session m₀ .running m := (Session.start .fresh hs).run_none he
      have hm₁ : m₁.Unlimited := by
        obtain ⟨t, -, rfl⟩ := start_ok hs
        exact ⟨hm.output, hm.diagnostics⟩
      -- Only a stream that refuses its text makes a loaded program fail internally.
      rcases hsession.advance_fault hp ha with ho | ⟨-, i, -, hr⟩
      · exact Fault.kind_of_ordinary ho
      · exact absurd hr (hm₁.run he).not_refused

end Machine

namespace CommandLine

/-- The line that the tool adds to the diagnostics when it fails. -/
def report (message : String) : ByteArray := s!"error: {message}\n".toUTF8

/-- How the tool ends. What is wrong with the program is found before the input is opened, and a
missing input before an instruction runs. -/
inductive Ends (c : Config) (file? : String → Option ByteArray) (standard : ByteArray)
    (fuel : Nat) : Result → Prop
  | missingSource {path : String} : c.source = some path → file? path = none →
      Ends c file? standard fuel {
        code := 11
        diagnostics := report s!"cannot read '{path}': No such file or directory (os error 2)" }
  | encoding {bytes : ByteArray} : contents file? standard c.source = some bytes →
      ¬ bytes.IsValidUTF8 →
      Ends c file? standard fuel {
        code := 31
        diagnostics := report (LoadError.malformed .encoding).message }
  | malformed {text : String} {reason : Malformed} :
      contents file? standard c.source = some text.toUTF8 → Element.read text = .error reason →
      Ends c file? standard fuel {
        code := 31
        diagnostics := report (LoadError.malformed reason).message }
  | structural {text : String} {root : Element} {e : LoadError} :
      contents file? standard c.source = some text.toUTF8 → Element.read text = .ok root →
      root.toProgram = .error e →
      Ends c file? standard fuel { code := 32, diagnostics := report e.message }
  | missingInput {text path : String} {p : Program} :
      contents file? standard c.source = some text.toUTF8 → Program.load text = .ok p →
      c.input = some path → file? path = none →
      Ends c file? standard fuel {
        code := 11
        diagnostics := report s!"cannot open '{path}': No such file or directory (os error 2)" }
  | exited {text : String} {p : Program} {bytes : ByteArray} {code : Nat} {m : Machine} :
      contents file? standard c.source = some text.toUTF8 → Program.load text = .ok p →
      contents file? standard c.input = some bytes →
      (Machine.fresh p bytes.data.toList {} {}).Stops fuel (.exit code) m →
      Ends c file? standard fuel {
        code
        output := m.output.accepted
        diagnostics := m.diagnostics.accepted }
  | failed {text : String} {p : Program} {bytes : ByteArray} {e : RuntimeError} {m : Machine} :
      contents file? standard c.source = some text.toUTF8 → Program.load text = .ok p →
      contents file? standard c.input = some bytes →
      (Machine.fresh p bytes.data.toList {} {}).Stops fuel (.failed e) m →
      Ends c file? standard fuel {
        code := e.fault.kind.exitCode
        output := m.output.accepted
        diagnostics := m.diagnostics.accepted ++ report e.message }

variable {c : Config} {file? : String → Option ByteArray} {standard bytes : ByteArray}
  {source input : Option ByteArray} {arguments : List String} {text : String} {p : Program}
  {fuel : Nat} {r : Result}

theorem contents_eq_none {path? : Option String} : contents file? standard path? = none ↔
    ∃ path, path? = some path ∧ file? path = none := by
  cases path? <;> simp [contents]

theorem ofEnding_error (code : Nat) (message : String) :
    Result.ofEnding (.error code message) none = { code, diagnostics := report message } :=
  congrArg (Result.mk code .empty) (ByteArray.empty_append)

theorem load_toUTF8 (text : String) : load text.toUTF8 = Program.load text := by
  have h : String.fromUTF8? text.toUTF8 = some text := dif_pos text.isValidUTF8
  rw [load, h]

theorem load_of_invalid (h : ¬ bytes.IsValidUTF8) : load bytes = .error (.malformed .encoding) := by
  have h : String.fromUTF8? bytes = none := dif_neg h
  rw [load, h]

theorem load_of_malformed {reason : Malformed} (h : Element.read text = .error reason) :
    load text.toUTF8 = .error (.malformed reason) := by
  rw [load_toUTF8, Program.load, h]
  rfl

theorem load_of_read {root : Element} (h : Element.read text = .ok root) :
    load text.toUTF8 = root.toProgram := by
  rw [load_toUTF8, Program.load_of_read h]

theorem prepare_of_source_none {path : String} (h : c.source = some path) :
    prepare c none input =
      .error (.error 11 s!"cannot read '{path}': No such file or directory (os error 2)") := by
  rw [prepare, h]
  rfl

theorem prepare_of_load_error {e : LoadError} (h : load bytes = .error e) :
    prepare c (some bytes) input = .error (.error e.kind.exitCode e.message) := by
  simp [prepare, h, Except.mapError, Ending.ofLoadError]

theorem prepare_of_structural {root : Element} {e : LoadError} (hr : Element.read text = .ok root)
    (hp : root.toProgram = .error e) :
    prepare c (some text.toUTF8) input = .error (.error 32 e.message) := by
  rw [prepare_of_load_error ((load_of_read hr).trans hp), root.toProgram_structural e hp]
  rfl

theorem prepare_of_input_none {path : String} (hl : load bytes = .ok p)
    (h : c.input = some path) : prepare c (some bytes) none =
      .error (.error 11 s!"cannot open '{path}': No such file or directory (os error 2)") := by
  simp only [prepare, hl, h, Except.mapError, Except.ok_bind, Except.error_bind]
  rfl

theorem prepare_of_ok {b : ByteArray} (h : load bytes = .ok p) :
    prepare c (some bytes) (some b) = .ok (Machine.fresh p b.data.toList {} {}) := by
  simp [prepare, h, Except.mapError, Machine.fresh]

section

variable (hc : parse {} arguments = .interpret c)
  (hs : contents file? standard c.source = source) (hi : contents file? standard c.input = input)
include hc hs hi

theorem run_of_error {code : Nat} {message : String}
    (h : prepare c source input = .error (.error code message)) :
    run fuel file? standard arguments = some { code, diagnostics := report message } := by
  simp only [run, hc, hs, hi, h]
  rw [ofEnding_error]

theorem run_of_ok {m : Machine} (h : prepare c source input = .ok m) :
    run fuel file? standard arguments = some r ↔
      ∃ o m', m.Stops fuel o m' ∧ r = .ofEnding (.ofOutcome o) (some m') := by
  simp only [run, hc, hs, hi, h]
  constructor
  · intro hr
    split at hr
    · next m' o he =>
      cases hr
      exact ⟨o, m', Machine.execute_eq_some.1 he, rfl⟩
    · cases hr
  · rintro ⟨o, m', hm, rfl⟩
    rw [Machine.execute_eq_some.2 hm]

end

theorem ofEnding_exit (code : Nat) (m : Machine) :
    Result.ofEnding (.ofOutcome (.exit code)) (some m) =
      { code, output := m.output.accepted, diagnostics := m.diagnostics.accepted } :=
  congrArg (Result.mk code _) ByteArray.append_empty

theorem Ends.run (hc : parse {} arguments = .interpret c) (h : Ends c file? standard fuel r) :
    run fuel file? standard arguments = some r := by
  cases h with
  | missingSource hp hf =>
    exact run_of_error hc (contents_eq_none.2 ⟨_, hp, hf⟩) rfl (prepare_of_source_none hp)
  | encoding hs hb => exact run_of_error hc hs rfl (prepare_of_load_error (load_of_invalid hb))
  | malformed hs hr => exact run_of_error hc hs rfl (prepare_of_load_error (load_of_malformed hr))
  | structural hs hr hp => exact run_of_error hc hs rfl (prepare_of_structural hr hp)
  | missingInput hs hl hp hf =>
    exact run_of_error hc hs (contents_eq_none.2 ⟨_, hp, hf⟩)
      (prepare_of_input_none ((load_toUTF8 _).trans hl) hp)
  | exited hs hl hi hm =>
    refine (run_of_ok hc hs hi (prepare_of_ok ((load_toUTF8 _).trans hl))).2 ⟨_, _, hm, ?_⟩
    rw [ofEnding_exit]
  | failed hs hl hi hm =>
    exact (run_of_ok hc hs hi (prepare_of_ok ((load_toUTF8 _).trans hl))).2 ⟨_, _, hm, rfl⟩

/-- There is a machine to run, or the tool ends without one. -/
theorem loads_or_ends (c : Config) (file? : String → Option ByteArray) (standard : ByteArray) :
    (∃ text p bytes, contents file? standard c.source = some text.toUTF8 ∧
      Program.load text = .ok p ∧ contents file? standard c.input = some bytes) ∨
    ∃ r, ∀ fuel, Ends c file? standard fuel r := by
  cases hs : contents file? standard c.source with
  | none =>
    obtain ⟨path, hp, hf⟩ := contents_eq_none.1 hs
    exact .inr ⟨_, fun _ ↦ .missingSource hp hf⟩
  | some bytes =>
    by_cases hb : bytes.IsValidUTF8
    · obtain ⟨text, rfl⟩ : ∃ text : String, bytes = text.toUTF8 := ⟨.fromUTF8 bytes hb, rfl⟩
      cases hr : Element.read text with
      | error reason => exact .inr ⟨_, fun _ ↦ .malformed hs hr⟩
      | ok root =>
        cases hp : root.toProgram with
        | error e => exact .inr ⟨_, fun _ ↦ .structural hs hr hp⟩
        | ok p =>
          have hl : Program.load text = .ok p := (Program.load_of_read hr).trans hp
          cases hi : contents file? standard c.input with
          | none =>
            obtain ⟨path, hpath, hf⟩ := contents_eq_none.1 hi
            exact .inr ⟨_, fun _ ↦ .missingInput hs hl hpath hf⟩
          | some b => exact .inl ⟨text, p, b, rfl, hl, rfl⟩
    · exact .inr ⟨_, fun _ ↦ .encoding hs hb⟩

theorem run_eq_some (hc : parse {} arguments = .interpret c) :
    run fuel file? standard arguments = some r ↔ Ends c file? standard fuel r := by
  constructor
  · intro h
    rcases loads_or_ends c file? standard with ⟨text, p, bytes, hs, hl, hi⟩ | ⟨r', hr'⟩
    · obtain ⟨o, m, hm, rfl⟩ :=
        (run_of_ok hc hs hi (prepare_of_ok ((load_toUTF8 text).trans hl))).1 h
      cases o with
      | exit code =>
        rw [ofEnding_exit]
        exact .exited hs hl hi hm
      | failed e => exact .failed hs hl hi hm
    · cases ((hr' fuel).run hc).symm.trans h
      exact hr' fuel
  · exact (·.run hc)

theorem Ends.code (h : Ends c file? standard fuel r) :
    r.code ≤ 49 ∨ 52 ≤ r.code ∧ r.code ≤ 58 := by
  cases h with
  | exited _ _ _ hm =>
    cases hm with
    | ended => exact .inl (Nat.zero_le _)
    | exited _ _ _ _ _ _ hle => exact .inl hle
  | failed _ hl _ hm => exact .inr (FaultKind.exitCode_range (hm.kind hl ⟨rfl, rfl⟩))
  | _ => exact .inl (by simp)

end CommandLine

end ThreeAddress

import ThreeAddress.Loading
import ThreeAddress.Proofs.Binary64.Written
import ThreeAddress.Proofs.Text.Lines
import ThreeAddress.Proofs.Transitions

namespace ThreeAddress

open Text

theorem Sink.accepted_write {s : Sink} {text : String} (h : (s.write text).2 = true) :
    (s.write text).1.accepted = s.accepted ++ text.toUTF8 := by
  have hn : s.room text.toUTF8.size = text.toUTF8.size := beq_iff_eq.1 h
  rw [write, hn, ByteArray.extract_zero_size]

/-- The first line of the bytes is a text, and `rest` is what follows it. -/
def Text.FirstLine (text : String) (bytes rest : List UInt8) : Prop :=
  bytes = utf8 text ++ lineFeed :: rest ∨ bytes = utf8 text ∧ rest = []

namespace Instruction

variable {i : Instruction} {m m' : Machine} {flow : Flow} {x : Value} {v : VarRef}

theorem Completes.of_write (ho : i.opcode = .write) (h : i.Completes m flow m') :
    ∃ x, i.held m.frames 0 = .ok x ∧
      m'.output.accepted = m.output.accepted ++ x.display.toUTF8 := by
  cases h with
  | write _ hx hb => exact ⟨_, hx, Sink.accepted_write hb⟩
  | reframe hF => simp only [reframe?, ho, reduceCtorEq] at hF
  | call h | ret h | pushs h | pops h | clears h | read h | label h | jump h | jumpIf h | exit h
  | dprint h | breakpoint h | binaryStack h | unaryStack h | jumpIfStack h => cases ho.symm.trans h

theorem Completes.read_of_place {type : String} (ho : i.opcode = .read)
    (hv : i.place m.frames 0 = .ok v) (ht : i.readType 1 = .ok type)
    (hx : Value.ofLine type (takeLine m.input).1 = .ok x) :
    ∃ fs, m.frames.set v x = .ok fs ∧
      i.Completes m .next { m with input := (takeLine m.input).2, frames := fs } := by
  cases hs : m.frames.set v x with
  | ok fs => exact ⟨fs, rfl, .read ho hv ht hx hs⟩
  | error f => exact absurd hs (set_of_place hv)

end Instruction

namespace Binary64

variable {x : Binary64}

theorem toList_display (x : Binary64) : (Value.float x).display.toList = x.write :=
  String.toList_ofList

theorem read?_write (h : x.isNaN = false) : read? x.write = some x := by
  rw [read?, readHex?_write h, Option.some_or]

theorem takeLine_display (hx : x.isNaN = false) {bytes rest : List UInt8}
    (h : FirstLine (Value.float x).display bytes rest) :
    takeLine bytes = (some (Value.float x).display, rest) := by
  have hs := toList_display x
  have hn : '\n' ∉ (Value.float x).display.toList := fun hc ↦ by
    cases isBlank_of_mem_write hx (hs ▸ hc)
  have hr : (Value.float x).display.toList.getLast? ≠ some '\r' := fun hc ↦ by
    cases isBlank_of_mem_write hx (hs ▸ List.mem_of_getLast? hc)
  rcases h with rfl | ⟨rfl, rfl⟩
  · exact takeLine_utf8 hn hr rest
  · exact takeLine_utf8_end hn (hs ▸ write_ne_nil hx)

theorem ofLine_display (hx : x.isNaN = false) :
    Value.ofLine "float" (some (Value.float x).display) = .ok (.float x) := by
  rw [Value.ofLine, show ReadType.ofName? "float" = some .float by decide]
  simp only [Option.bind_some, ReadType.read?, toList_display, read?_write hx, Option.map_some,
    Option.getD_some]

/-- What is written of a number is read back as the same bits, by the reader of hexadecimal
notation, as a literal, and by `READ` from what `WRITE` has printed. -/
theorem float_round_trip (hx : x.isNaN = false) :
    readHex? x.write = some x ∧
      (∀ y : Binary64, y.isNaN = false → y.write = x.write → y = x) ∧
      Argument.decode (Value.float x).display .float = .ok (.literal (.float x)) ∧
      (∀ (i : Instruction) m flow m', i.opcode = .write → i.held m.frames 0 = .ok (.float x) →
        i.step m = .ok flow m' →
        m'.output.accepted = m.output.accepted ++ (Value.float x).display.toUTF8) ∧
      ∀ (i : Instruction) m v rest, i.opcode = .read → i.place m.frames 0 = .ok v →
        i.readType 1 = .ok "float" → FirstLine (Value.float x).display m.input rest →
        ∃ fs, m.frames.set v (.float x) = .ok fs ∧
          i.step m = .ok .next { m with input := rest, frames := fs } := by
  refine ⟨readHex?_write hx, ?_, ?_, ?_, ?_⟩
  · intro y hy he
    have h := readHex?_write hy
    rw [he, readHex?_write hx] at h
    exact (Option.some_inj.1 h).symm
  · rw [Argument.decode, toList_display, read?_write hx]
    rfl
  · intro i m flow m' ho hv hs
    obtain ⟨y, hy, ha⟩ := (Instruction.step_ok.1 hs).of_write ho
    rw [hv] at hy
    cases hy
    exact ha
  · intro i m v rest ho hv ht hl
    have htake := takeLine_display hx hl
    have hline : Value.ofLine "float" (takeLine m.input).1 = .ok (.float x) := by
      rw [htake, ofLine_display hx]
    obtain ⟨fs, hfs, hc⟩ := Instruction.Completes.read_of_place ho hv ht hline
    rw [htake] at hc
    exact ⟨fs, hfs, Instruction.step_ok.2 hc⟩

def smallest : Binary64 := ⟨1⟩

def printing : Instruction := ⟨1, .write, [.literal (.float smallest)]⟩

def scanning : Instruction := ⟨2, .read, [.var ⟨.gf, "x"⟩, .type "float"]⟩

def scanner : Machine where
  program := .empty
  frames := { globals := ⟨[("x", .nil)]⟩ }
  input := utf8 (Value.float smallest).display

/-- The smallest number is written with all its zeros. -/
theorem float_round_trip_smallest :
    smallest.isNaN = false ∧ smallest.write = "0x0.0000000000001p-1022".toList ∧
      readHex? smallest.write = some smallest ∧
      (∃ m', printing.step scanner = .ok .next m' ∧
        m'.output.accepted = scanner.output.accepted ++ (Value.float smallest).display.toUTF8) ∧
      ∃ fs, scanner.frames.set ⟨.gf, "x"⟩ (.float smallest) = .ok fs ∧
        scanning.step scanner = .ok .next { scanner with input := [], frames := fs } := by
  have hx : smallest.isNaN = false := by decide
  obtain ⟨hr, -, -, hw, hd⟩ := float_round_trip hx
  have hs : printing.step scanner = .ok .next
      { scanner with output := (scanner.output.write (Value.float smallest).display).1 } :=
    Instruction.step_ok.2 (.write rfl rfl (beq_self_eq_true _))
  exact ⟨hx, by decide +kernel, hr, ⟨_, hs, hw _ _ _ _ rfl rfl hs⟩,
    hd _ _ _ _ rfl rfl rfl (.inr ⟨rfl, rfl⟩)⟩

end Binary64

end ThreeAddress

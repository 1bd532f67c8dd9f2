import Mathlib.Data.List.Forall2
import ThreeAddress.Loading
import ThreeAddress.Proofs.Except

namespace ThreeAddress

open Markup

/-- What loading guarantees of an instruction. -/
structure Instruction.WellFormed (i : Instruction) : Prop where
  fits : List.Forall₂ (fun a k ↦ a.fits k = true) i.arguments i.opcode.signature
  decoded : ∀ a ∈ i.arguments, ∃ text declared, Argument.decode text declared = .ok a

namespace Markup.Element

variable {e : Element} {order : Nat}

theorem toArgument_decoded {a : Argument} (h : e.toArgument order = .ok a) :
    ∃ text declared, Argument.decode text declared = .ok a := by
  obtain ⟨name, -, h⟩ := Except.bind_eq_ok.1 h
  split at h
  · cases h
  · next declared hd => exact ⟨e.text, declared, Except.mapError_eq_ok.1 h⟩

theorem toArguments_fit {opcode : Opcode} {slot : Nat} {l : List (Element × OperandKind)}
    {as : List Argument} (h : toArguments order opcode slot l = .ok as) :
    List.Forall₂ (fun a k ↦ a.fits k = true) as (l.map Prod.snd) := by
  induction l generalizing slot as with
  | nil =>
    cases h
    exact .nil
  | cons p l ih =>
    simp only [toArguments] at h
    obtain ⟨a, -, h⟩ := Except.bind_eq_ok.1 h
    split at h
    · next hf =>
      obtain ⟨r, hr, h⟩ := Except.bind_eq_ok.1 h
      cases h
      exact .cons hf (ih hr)
    · cases h

theorem toArguments_decoded {opcode : Opcode} {slot : Nat} {l : List (Element × OperandKind)}
    {as : List Argument} (h : toArguments order opcode slot l = .ok as) :
    ∀ a ∈ as, ∃ text declared, Argument.decode text declared = .ok a := by
  induction l generalizing slot as with
  | nil =>
    cases h
    simp
  | cons p l ih =>
    simp only [toArguments] at h
    obtain ⟨a, ha, h⟩ := Except.bind_eq_ok.1 h
    split at h
    · obtain ⟨r, hr, h⟩ := Except.bind_eq_ok.1 h
      cases h
      exact List.forall_mem_cons.2 ⟨toArgument_decoded ha, ih hr⟩
    · cases h

theorem toInstruction_ok {i : Instruction} (h : e.toInstruction = .ok i) :
    e.name = "instruction" ∧
    (∃ name, e.required "instruction" "opcode" = .ok name ∧ Opcode.ofMnemonic name = .ok i.opcode) ∧
    (∃ text, e.required "instruction" "order" = .ok text ∧ readOrder text = .ok i.order) ∧
    ∃ slots, e.slots i.order = .ok slots ∧ slots.length = i.opcode.signature.length ∧
      toArguments i.order i.opcode 1 (slots.zip i.opcode.signature) = .ok i.arguments := by
  simp only [toInstruction] at h
  split at h
  · cases h
  · next hn =>
    obtain ⟨name, hname, h⟩ := Except.bind_eq_ok.1 h
    obtain ⟨opcode, hopcode, h⟩ := Except.bind_eq_ok.1 h
    obtain ⟨text, htext, h⟩ := Except.bind_eq_ok.1 h
    obtain ⟨order, horder, h⟩ := Except.bind_eq_ok.1 h
    obtain ⟨slots, hslots, h⟩ := Except.bind_eq_ok.1 h
    split at h
    · cases h
    · next hlength =>
      obtain ⟨arguments, harguments, h⟩ := Except.bind_eq_ok.1 h
      cases h
      exact ⟨not_not.1 hn, ⟨name, hname, Except.mapError_eq_ok.1 hopcode⟩, ⟨text, htext, horder⟩,
        slots, hslots, not_not.1 hlength, harguments⟩

theorem toInstruction_wellFormed {i : Instruction} (h : e.toInstruction = .ok i) :
    i.WellFormed := by
  obtain ⟨-, -, -, slots, -, hlength, harguments⟩ := toInstruction_ok h
  constructor
  · have hf := toArguments_fit harguments
    rwa [List.map_snd_zip (Nat.le_of_eq hlength.symm)] at hf
  · exact toArguments_decoded harguments

section

variable {P : Instruction → Prop} (hP : ∀ e i, toInstruction e = .ok i → P i)

include hP

theorem addInstruction_forall {l l' : List Instruction} (hl : ∀ i ∈ l, P i)
    (h : addInstruction l e = .ok l') : ∀ i ∈ l', P i := by
  obtain ⟨i, hi, h⟩ := Except.bind_eq_ok.1 h
  split at h
  · cases h
  · cases h
    exact List.forall_mem_cons.2 ⟨hP e i hi, hl⟩

theorem addInstructions_forall {es : List Element} {l l' : List Instruction} (hl : ∀ i ∈ l, P i)
    (h : es.foldlM addInstruction l = .ok l') : ∀ i ∈ l', P i := by
  induction es generalizing l with
  | nil =>
    cases h
    exact hl
  | cons e es ih =>
    rw [List.foldlM_cons] at h
    obtain ⟨l₁, hl₁, h⟩ := Except.bind_eq_ok.1 h
    exact ih (addInstruction_forall hP hl hl₁) h

end

theorem toProgram_ok {p : Program} (h : e.toProgram = .ok p) :
    e.name = "program" ∧ Text.sameLetters ((e.attribute? "language").getD "") "IPPcode22" ∧
      ∃ l, e.children.foldlM addInstruction [] = .ok l ∧ p = .ofList l.reverse := by
  simp only [toProgram] at h
  split at h
  · cases h
  · next hn =>
    split at h
    · cases h
    · next hlanguage =>
      obtain ⟨l, hl, h⟩ := Except.bind_eq_ok.1 h
      cases h
      exact ⟨not_not.1 hn, by simpa using hlanguage, l, hl, rfl⟩

theorem toProgram_of_instructions {l : List Instruction} (hn : e.name = "program")
    (hlanguage : Text.sameLetters ((e.attribute? "language").getD "") "IPPcode22")
    (hl : e.children.foldlM addInstruction [] = .ok l) : e.toProgram = .ok (.ofList l.reverse) := by
  simp [toProgram, hn, hlanguage, hl, pure, Except.pure]

end Markup.Element

/-- A document that is put together from pieces need not be spelled out as a whole. -/
theorem Markup.Element.read_join (l : List String) :
    read (String.join l) = ofEvents (events (dropMark (l.flatMap String.toList))) := by
  rw [read, String.toList_join]

theorem Program.load_ok {text : String} {p : Program} (h : Program.load text = .ok p) :
    ∃ e, Element.read text = .ok e ∧ e.toProgram = .ok p := by
  obtain ⟨e, he, h⟩ := Except.bind_eq_ok.1 h
  exact ⟨e, Except.mapError_eq_ok.1 he, h⟩

theorem Program.load_of_read {text : String} {e : Element} (h : Element.read text = .ok e) :
    Program.load text = e.toProgram := by
  simp only [load, h, Except.mapError, Except.ok_bind]

/-- What holds of each instruction that is read holds of the instructions of a loaded program. -/
theorem Program.load_forall {P : Instruction → Prop}
    (hP : ∀ e i, Element.toInstruction e = .ok i → P i) {text : String} {p : Program}
    (h : Program.load text = .ok p) : ∀ i ∈ p.instructions, P i := by
  obtain ⟨e, -, h⟩ := load_ok h
  obtain ⟨-, -, l, hl, rfl⟩ := Element.toProgram_ok h
  intro i hi
  exact Element.addInstructions_forall hP (by simp) hl i (List.mem_reverse.1 (mem_ofList.1 hi))

theorem Program.load_wellFormed {text : String} {p : Program} (h : Program.load text = .ok p) :
    ∀ i ∈ p.instructions, i.WellFormed :=
  load_forall (fun _ _ ↦ Element.toInstruction_wellFormed) h

theorem Program.load_order_pos {text : String} {p : Program} (h : Program.load text = .ok p) :
    ∀ i ∈ p.instructions, 0 < i.order := by
  refine load_forall (fun e i hi ↦ ?_) h
  obtain ⟨-, -, ⟨text, -, ho⟩, -⟩ := Element.toInstruction_ok hi
  simp only [readOrder] at ho
  split at ho
  · next n _ =>
    split at ho
    · next hn =>
      cases ho
      exact hn.1
    · cases ho
  · cases ho

end ThreeAddress

import Mathlib
import ThreeAddress.Proofs.Rejection
import ThreeAddress.Proofs.Text.Numeral

namespace ThreeAddress

open Text Markup

theorem ArgumentType.ofName?_eq_some {text : String} {t : ArgumentType} :
    ofName? text = some t ↔ text = t.name := by
  constructor
  · intro h
    have ht := List.find?_some h
    exact (beq_iff_eq.1 ht).symm
  · intro h
    subst h
    cases t <;> rfl

theorem Opcode.mnemonic_nodup :
    (all.map fun o ↦ o.mnemonic.toList.map Char.toLower).Nodup := by
  decide +kernel

/-- No two mnemonics differ in the case of their letters alone. -/
theorem Opcode.ofMnemonic_eq_ok {text : String} {o : Opcode} :
    ofMnemonic text = .ok o ↔ sameLetters o.mnemonic text = true := by
  simp only [ofMnemonic]
  constructor
  · intro h
    split at h
    · next o' ho =>
      cases h
      have hs := List.find?_some ho
      exact hs
    · cases h
  · intro h
    split
    · next o' ho =>
      have ho' := List.find?_some ho
      simp only [sameLetters, beq_iff_eq] at h ho'
      rw [List.inj_on_of_nodup_map mnemonic_nodup (mem_all o) (mem_all o') (h.trans ho'.symm)]
    · next ho => exact absurd h (List.find?_eq_none.1 ho o (mem_all o))

/-- How a document writes an order: a positive number below `2 ^ 64` in decimal digits, perhaps with
a plus sign and blanks around. -/
structure IsOrder (n : Nat) (s : List Char) : Prop where
  pos : 0 < n
  lt : n < 2 ^ 64
  written : ∃ before plus digits after, s = before ++ (plus ++ digits) ++ after ∧
    (∀ c ∈ before, isBlank c = true) ∧ (∀ c ∈ after, isBlank c = true) ∧
    (plus = [] ∨ plus = ['+']) ∧ digits ≠ [] ∧ (∀ c ∈ digits, c.isDigit = true) ∧
    Nat.ofDigitChars 10 digits 0 = n

def unplus : List Char → List Char
  | '+' :: s => s
  | s => s

theorem exists_unplus (s : List Char) :
    ∃ plus, s = plus ++ unplus s ∧ (plus = [] ∨ plus = ['+']) := by
  rw [unplus.eq_def]
  split
  · exact ⟨['+'], rfl, .inr rfl⟩
  · exact ⟨[], rfl, .inl rfl⟩

theorem unplus_append {plus digits : List Char} (hp : plus = [] ∨ plus = ['+'])
    (hd : ∀ c ∈ digits, c.isDigit = true) : unplus (plus ++ digits) = digits := by
  rcases hp with hp | hp
  · subst hp
    rw [List.nil_append, unplus]
    intro s hs
    subst hs
    exact absurd (hd '+' List.mem_cons_self) (by decide)
  · subst hp
    rfl

theorem readOrder_eq (text : String) :
    readOrder text = match Numeral.natural? (unplus (trim text.toList)) with
      | some n => if 0 < n ∧ n < 2 ^ 64 then .ok n else .error (.invalidOrder text)
      | none => .error (.invalidOrder text) := rfl

theorem readOrder_eq_ok {text : String} {n : Nat} :
    readOrder text = .ok n ↔ IsOrder n text.toList := by
  rw [readOrder_eq]
  constructor
  · intro h
    split at h
    · next k hk =>
      split at h
      · next hn =>
        cases h
        obtain ⟨before, after, hs, hb, ha⟩ := exists_trim text.toList
        obtain ⟨plus, ht, hp⟩ := exists_unplus (trim text.toList)
        obtain ⟨hne, hd, hv⟩ := Numeral.natural?_eq_some.1 hk
        exact ⟨hn.1, hn.2, before, plus, _, after, ht ▸ hs, hb, ha, hp, hne, hd, hv⟩
      · cases h
    · cases h
  · intro h
    obtain ⟨before, plus, digits, after, hs, hb, ha, hp, hne, hd, hv⟩ := h.written
    have hblank : ∀ c ∈ plus ++ digits, isBlank c = false := by
      intro c hc
      rcases List.mem_append.1 hc with hc | hc
      · rcases hp with hp | hp
        · rw [hp] at hc
          cases hc
        · rw [hp, List.mem_singleton] at hc
          rw [hc]
          rfl
      · exact isBlank_of_isDigit (hd c hc)
    have ht : trim text.toList = plus ++ digits := by
      rw [hs]
      exact trim_append hb ha hblank (List.append_ne_nil_of_right_ne_nil plus hne)
    rw [ht, unplus_append hp hd, Numeral.natural?_eq_some.2 ⟨hne, hd, hv⟩]
    exact if_pos ⟨h.pos, h.lt⟩

/-- `arg1`, `arg2` and so on. -/
def argumentNames (n : Nat) : List String := (List.range n).map fun k ↦ s!"arg{k + 1}"

theorem Opcode.signature_length_le (o : Opcode) : o.signature.length ≤ 3 := by
  cases o <;> simp [signature]

namespace Markup.Element

variable {e : Element} {es slots : List Element} {order : Nat} {seen : List String}

theorem slotNames_take {n : Nat} (h : n ≤ 3) : slotNames.take n = argumentNames n := by
  interval_cases n <;> decide +kernel

theorem slotNames_nodup : slotNames.Nodup := by decide

theorem checkSlot_eq_ok {seen' : List String} : checkSlot order seen e = .ok seen' ↔
    e.name ∈ slotNames ∧ e.name ∉ seen ∧ e.name :: seen = seen' := by
  simp only [checkSlot]
  split
  · next h => simp [h]
  · next h =>
    split
    · next hs => simp [hs]
    · next hs => simp [not_not.1 h, hs]

/-- All names are those of slots, and none comes twice. -/
theorem checkSlots_ok : (∃ seen', es.foldlM (checkSlot order) seen = .ok seen') ↔
    (∀ e ∈ es, e.name ∈ slotNames ∧ e.name ∉ seen) ∧ (es.map name).Nodup := by
  induction es generalizing seen with
  | nil => simp [pure, Except.pure]
  | cons e es ih =>
    simp only [List.foldlM_cons, Except.bind_eq_ok, checkSlot_eq_ok, List.forall_mem_cons,
      List.map_cons, List.nodup_cons, List.mem_map, not_exists, not_and]
    constructor
    · intro h
      obtain ⟨seen', _, ⟨he, hs, rfl⟩, h⟩ := h
      obtain ⟨hes, hn⟩ := ih.1 ⟨seen', h⟩
      refine ⟨⟨⟨he, hs⟩, fun c hc ↦ ⟨(hes c hc).1, ?_⟩⟩, fun c hc hce ↦ ?_, hn⟩
      · exact fun h ↦ (hes c hc).2 (List.mem_cons_of_mem _ h)
      · exact (hes c hc).2 (hce ▸ List.mem_cons_self)
    · intro h
      obtain ⟨⟨⟨he, hs⟩, hes⟩, hne, hn⟩ := h
      have htail : ∀ c ∈ es, c.name ∈ slotNames ∧ c.name ∉ e.name :: seen := by
        intro c hc
        refine ⟨(hes c hc).1, fun h ↦ ?_⟩
        rcases List.mem_cons.1 h with h | h
        · exact hne c hc h
        · exact (hes c hc).2 h
      obtain ⟨seen', h⟩ := ih.2 ⟨htail, hn⟩
      exact ⟨seen', _, ⟨he, hs, rfl⟩, h⟩

theorem find?_of_mem (hn : (es.map name).Nodup) (he : e ∈ es) :
    es.find? (·.name == e.name) = some e := by
  cases hf : es.find? (·.name == e.name) with
  | none =>
    have hne := List.find?_eq_none.1 hf e he
    exact absurd BEq.rfl hne
  | some c =>
    have hc := List.mem_of_find?_eq_some hf
    have hname := List.find?_some hf
    rw [List.inj_on_of_nodup_map hn hc he (beq_iff_eq.1 hname)]

/-- The elements with the names of slots, in the sequence of these. -/
def filled (es : List Element) : List Element :=
  slotNames.filterMap fun name ↦ es.find? (·.name == name)

theorem slots_eq (e : Element) (order : Nat) : e.slots order =
    (e.children.foldlM (checkSlot order) []).bind fun _ ↦
      if (filled e.children).map name = slotNames.take (filled e.children).length then
        .ok (filled e.children)
      else .error (.argumentGap order) := rfl

theorem filled_perm (hs : ∀ e ∈ es, e.name ∈ slotNames) (hn : (es.map name).Nodup)
    (hf : (filled es).map name = slotNames.take (filled es).length) : (filled es).Perm es := by
  have hnf : ((filled es).map name).Nodup := by
    rw [hf]
    exact slotNames_nodup.sublist (List.take_sublist _ _)
  rw [List.perm_ext_iff_of_nodup hnf.of_map hn.of_map]
  intro e
  rw [filled, List.mem_filterMap]
  constructor
  · intro h
    obtain ⟨n, -, he⟩ := h
    exact List.mem_of_find?_eq_some he
  · intro he
    exact ⟨e.name, hs e he, find?_of_mem hn he⟩

theorem filled_eq (hp : slots.Perm es) (hs : slots.map name = slotNames.take slots.length) :
    filled es = slots := by
  have hn : (es.map name).Nodup := by
    rw [← (hp.map name).nodup_iff, hs]
    exact slotNames_nodup.sublist (List.take_sublist _ _)
  have hmem (e : Element) (he : e ∈ es) : e.name ∈ slotNames.take slots.length := by
    rw [← hs]
    exact List.mem_map_of_mem (hp.mem_iff.2 he)
  have hrest : (slotNames.drop slots.length).filterMap (fun n ↦ es.find? (·.name == n)) = [] := by
    rw [List.filterMap_eq_nil_iff]
    intro n hmn
    rw [List.find?_eq_none]
    intro e he hen
    rw [beq_iff_eq] at hen
    exact List.disjoint_take_drop slotNames_nodup le_rfl (hen ▸ hmem e he) hmn
  have hslots : (slots.map name).filterMap (fun n ↦ es.find? (·.name == n)) = slots := by
    rw [List.filterMap_map]
    calc slots.filterMap ((fun n ↦ es.find? (·.name == n)) ∘ name)
        = slots.filterMap some := List.filterMap_congr fun e he ↦
          find?_of_mem hn (hp.mem_iff.1 he)
      _ = slots := List.filterMap_some
  rw [filled, ← List.take_append_drop slots.length slotNames, List.filterMap_append, ← hs, hslots,
    hrest, List.append_nil]

/-- The slots are the children, rearranged so that their names come in sequence. -/
theorem slots_eq_ok : e.slots order = .ok slots ↔
    slots.Perm e.children ∧ slots.map name = slotNames.take slots.length := by
  rw [slots_eq]
  constructor
  · intro h
    obtain ⟨seen, hc, h⟩ := Except.bind_eq_ok.1 h
    obtain ⟨hs, hn⟩ := checkSlots_ok.1 ⟨seen, hc⟩
    split at h
    · next hf =>
      cases h
      exact ⟨filled_perm (fun e he ↦ (hs e he).1) hn hf, hf⟩
    · cases h
  · intro h
    obtain ⟨hp, hs⟩ := h
    have hn : (e.children.map name).Nodup := by
      rw [← (hp.map name).nodup_iff, hs]
      exact slotNames_nodup.sublist (List.take_sublist _ _)
    have hmem (c : Element) (hc : c ∈ e.children) : c.name ∈ slotNames ∧ c.name ∉ [] := by
      have hc' : c.name ∈ slots.map name := List.mem_map_of_mem (hp.mem_iff.2 hc)
      rw [hs] at hc'
      exact ⟨List.mem_of_mem_take hc', List.not_mem_nil⟩
    obtain ⟨seen, hc⟩ := checkSlots_ok.2 ⟨hmem, hn⟩
    refine Except.bind_eq_ok.2 ⟨seen, hc, ?_⟩
    rw [filled_eq hp hs, if_pos hs]

/-- An argument element says of which type its text is, and the text is one of that type. -/
def DenotesArgument (e : Element) (a : Argument) : Prop :=
  ∃ declared : ArgumentType, e.attribute? "type" = some declared.name ∧
    Argument.decode e.text declared = .ok a

/-- An instruction element names an opcode, in letters of any case, and an order. Its children are
the arguments that the opcode asks for, in any sequence. -/
structure DenotesInstruction (e : Element) (i : Instruction) : Prop where
  name : e.name = "instruction"
  opcode : ∃ text, e.attribute? "opcode" = some text ∧
    sameLetters i.opcode.mnemonic text = true
  order : ∃ text, e.attribute? "order" = some text ∧ IsOrder i.order text.toList
  arguments : ∃ slots, slots.Perm e.children ∧
    slots.map Element.name = argumentNames i.opcode.signature.length ∧
    List.Forall₂ DenotesArgument slots i.arguments
  fits : List.Forall₂ (fun a kind ↦ a.fits kind = true) i.arguments i.opcode.signature

/-- A program element names its language, in letters of any case. Its children are instructions
with different orders. -/
structure DenotesProgram (e : Element) (l : List Instruction) : Prop where
  name : e.name = "program"
  language : ∃ text, e.attribute? "language" = some text ∧ sameLetters text "IPPcode22" = true
  instructions : List.Forall₂ DenotesInstruction e.children l
  orders : (l.map Instruction.order).Nodup

theorem required_eq_ok {element key text : String} :
    e.required element key = .ok text ↔ e.attribute? key = some text := by
  simp only [required]
  cases e.attribute? key <;> simp

theorem toArgument_eq_ok {a : Argument} : e.toArgument order = .ok a ↔ e.DenotesArgument a := by
  simp only [toArgument, Except.bind_eq_ok, required_eq_ok, DenotesArgument]
  constructor
  · intro h
    obtain ⟨text, ht, h⟩ := h
    split at h
    · cases h
    · next declared hd =>
      rw [ArgumentType.ofName?_eq_some.1 hd] at ht
      exact ⟨declared, ht, Except.mapError_eq_ok.1 h⟩
  · intro h
    obtain ⟨declared, ht, h⟩ := h
    refine ⟨declared.name, ht, ?_⟩
    rw [ArgumentType.ofName?_eq_some.2 rfl]
    exact Except.mapError_eq_ok.2 h

theorem toArguments_eq_ok {opcode : Opcode} {slot : Nat} {kinds : List OperandKind}
    {as : List Argument} (hl : slots.length = kinds.length) :
    toArguments order opcode slot (slots.zip kinds) = .ok as ↔
      List.Forall₂ DenotesArgument slots as ∧
        List.Forall₂ (fun a kind ↦ a.fits kind = true) as kinds := by
  induction slots generalizing slot kinds as with
  | nil =>
    cases List.length_eq_zero_iff.1 hl.symm
    constructor
    · intro h
      cases h
      exact ⟨.nil, .nil⟩
    · intro h
      cases h.1
      rfl
  | cons e slots ih =>
    cases kinds with
    | nil => cases hl
    | cons kind kinds =>
      have hl' : slots.length = kinds.length := Nat.succ.inj hl
      simp only [List.zip_cons_cons, toArguments, Except.bind_eq_ok, toArgument_eq_ok]
      constructor
      · intro h
        obtain ⟨a, ha, h⟩ := h
        split at h
        · next hf =>
          obtain ⟨r, hr, h⟩ := Except.bind_eq_ok.1 h
          cases h
          obtain ⟨hd, hfs⟩ := (ih hl').1 hr
          exact ⟨.cons ha hd, .cons hf hfs⟩
        · cases h
      · intro h
        obtain ⟨hd, hf⟩ := h
        cases hd with
        | @cons _ a _ r ha hd =>
          cases hf with
          | cons hf hfs =>
            refine ⟨a, ha, ?_⟩
            rw [if_pos hf]
            exact Except.bind_eq_ok.2 ⟨r, (ih hl').2 ⟨hd, hfs⟩, rfl⟩

theorem toInstruction_eq_ok {i : Instruction} :
    e.toInstruction = .ok i ↔ e.DenotesInstruction i := by
  constructor
  · intro h
    obtain ⟨hn, ⟨name, hname, ho⟩, ⟨text, htext, hi⟩, slots, hs, hl, ha⟩ := toInstruction_ok h
    obtain ⟨hp, hnames⟩ := slots_eq_ok.1 hs
    obtain ⟨hd, hf⟩ := (toArguments_eq_ok hl).1 ha
    rw [hl, slotNames_take i.opcode.signature_length_le] at hnames
    exact ⟨hn, ⟨name, required_eq_ok.1 hname, Opcode.ofMnemonic_eq_ok.1 ho⟩,
      ⟨text, required_eq_ok.1 htext, readOrder_eq_ok.1 hi⟩, ⟨slots, hp, hnames, hd⟩, hf⟩
  · intro h
    obtain ⟨hn, ⟨name, hname, ho⟩, ⟨text, htext, hi⟩, ⟨slots, hp, hnames, hd⟩, hf⟩ := h
    have hl : slots.length = i.opcode.signature.length := hd.length_eq.trans hf.length_eq
    rw [← slotNames_take i.opcode.signature_length_le, ← hl] at hnames
    simp only [toInstruction, hn, required_eq_ok.2 hname, required_eq_ok.2 htext,
      readOrder_eq_ok.2 hi, Opcode.ofMnemonic_eq_ok.2 ho, slots_eq_ok.2 ⟨hp, hnames⟩, hl,
      (toArguments_eq_ok hl).2 ⟨hd, hf⟩, Except.mapError, Except.ok_bind, ne_eq, not_true_eq_false,
      ↓reduceIte]
    rfl

theorem addInstruction_eq_ok {l l' : List Instruction} : addInstruction l e = .ok l' ↔
    ∃ i, e.DenotesInstruction i ∧ i.order ∉ l.map Instruction.order ∧ l' = i :: l := by
  simp only [addInstruction, Except.bind_eq_ok, toInstruction_eq_ok]
  refine exists_congr fun i ↦ and_congr_right fun _ ↦ ?_
  have hany : l.any (·.order == i.order) = true ↔ i.order ∈ l.map Instruction.order := by
    simp [List.any_eq_true, List.mem_map]
  split
  · next h => simp [hany.1 h]
  · next h =>
    simp [mt hany.2 h, eq_comm]

/-- The instructions are collected in reverse. -/
theorem addInstructions_eq_ok {l l' : List Instruction} (hn : (l.map Instruction.order).Nodup) :
    es.foldlM addInstruction l = .ok l' ↔
      ∃ is, List.Forall₂ DenotesInstruction es is ∧ l' = is.reverse ++ l ∧
        (l'.map Instruction.order).Nodup := by
  induction es generalizing l with
  | nil =>
    simp only [List.foldlM_nil, pure, Except.pure, Except.ok.injEq, List.forall₂_nil_left_iff]
    constructor
    · intro h
      subst h
      exact ⟨[], rfl, rfl, hn⟩
    · intro h
      obtain ⟨is, rfl, rfl, -⟩ := h
      rfl
  | cons e es ih =>
    simp only [List.foldlM_cons, Except.bind_eq_ok, addInstruction_eq_ok]
    constructor
    · intro h
      obtain ⟨_, ⟨i, hi, ho, rfl⟩, h⟩ := h
      have hnc : ((i :: l).map Instruction.order).Nodup := List.nodup_cons.2 ⟨ho, hn⟩
      obtain ⟨is, his, hl', hn'⟩ := (ih hnc).1 h
      refine ⟨i :: is, .cons hi his, ?_, hn'⟩
      rw [hl', List.reverse_cons, List.append_assoc, List.singleton_append]
    · intro h
      obtain ⟨_, hes, hl', hn'⟩ := h
      cases hes with
      | @cons _ i _ is hi his =>
        rw [List.reverse_cons, List.append_assoc, List.singleton_append] at hl'
        have hnc : ((i :: l).map Instruction.order).Nodup := by
          rw [hl', List.map_append] at hn'
          exact hn'.of_append_right
        exact ⟨i :: l, ⟨i, hi, (List.nodup_cons.1 hnc).1, rfl⟩,
          (ih hnc).2 ⟨is, his, hl', hn'⟩⟩

end Markup.Element

namespace Program

variable {p : Program} {l : List Instruction}

theorem eq_ofList_iff (hn : (l.map Instruction.order).Nodup) : p = .ofList l ↔
    p.instructions.Perm l ∧ p.instructions.Pairwise fun i j ↦ i.order < j.order := by
  have hp : (ofList l).instructions.Perm l := List.mergeSort_perm l precedes
  have hs : (ofList l).instructions.Pairwise fun i j ↦ i.order < j.order := by
    have hn' := (hp.map Instruction.order).nodup_iff.2 hn
    rw [List.Nodup, List.pairwise_map] at hn'
    exact (ofList l).sorted.imp₂ (fun _ _ h hne ↦ Nat.lt_of_le_of_ne h hne) hn'
  constructor
  · intro h
    rw [h]
    exact ⟨hp, hs⟩
  · intro h
    obtain ⟨hpl, hps⟩ := h
    have he : p.instructions = (ofList l).instructions :=
      List.Perm.eq_of_pairwise (fun i j _ _ hij hji ↦ absurd hji (Nat.lt_asymm hij)) hps hs
        (hpl.trans hp.symm)
    obtain ⟨is, _⟩ := p
    cases he
    rfl

end Program

namespace Markup.Element

variable {e : Element}

theorem toProgram_eq_ok {p : Program} :
    e.toProgram = .ok p ↔ ∃ l, e.DenotesProgram l ∧ p = .ofList l := by
  have hnil : (([] : List Instruction).map Instruction.order).Nodup := List.nodup_nil
  constructor
  · intro h
    obtain ⟨hn, hlanguage, l, hl, hp⟩ := toProgram_ok h
    obtain ⟨is, his, hl', ho⟩ := (addInstructions_eq_ok hnil).1 hl
    rw [List.append_nil] at hl'
    rw [hl', List.map_reverse, List.nodup_reverse] at ho
    rw [hl', List.reverse_reverse] at hp
    refine ⟨is, ⟨hn, ?_, his, ho⟩, hp⟩
    cases ht : e.attribute? "language" with
    | none =>
      rw [ht, Option.getD_none] at hlanguage
      exact absurd hlanguage (by decide)
    | some text =>
      rw [ht] at hlanguage
      exact ⟨text, rfl, hlanguage⟩
  · intro h
    obtain ⟨l, ⟨hn, ⟨text, ht, hlanguage⟩, his, ho⟩, hp⟩ := h
    have hl : e.children.foldlM addInstruction [] = .ok l.reverse := by
      refine (addInstructions_eq_ok hnil).2 ⟨l, his, (List.append_nil _).symm, ?_⟩
      rw [List.map_reverse]
      exact List.nodup_reverse.2 ho
    rw [toProgram_of_instructions hn (by rw [ht]; exact hlanguage) hl, List.reverse_reverse, hp]

/-- The programs that are loaded are those of the format, with their instructions by ascending
order. All else is rejected for its structure. -/
theorem program_format (e : Element) :
    (∀ p, e.toProgram = .ok p ↔ ∃ l, e.DenotesProgram l ∧ p.instructions.Perm l ∧
      p.instructions.Pairwise fun i j ↦ i.order < j.order) ∧
    ((∃ p, e.toProgram = .ok p) ↔ ∃ l, e.DenotesProgram l) ∧
    ((¬∃ l, e.DenotesProgram l) →
      ∃ err, e.toProgram = .error err ∧ err.kind = .structural ∧ err.kind.exitCode = 32) := by
  have hok : (∃ p, e.toProgram = .ok p) ↔ ∃ l, e.DenotesProgram l := by
    simp only [toProgram_eq_ok]
    constructor
    · intro h
      obtain ⟨_, l, hl, -⟩ := h
      exact ⟨l, hl⟩
    · intro h
      obtain ⟨l, hl⟩ := h
      exact ⟨_, l, hl, rfl⟩
  refine ⟨fun p ↦ ?_, hok, fun hn ↦ ?_⟩
  · rw [toProgram_eq_ok]
    exact exists_congr fun l ↦ and_congr_right fun hl ↦ Program.eq_ofList_iff hl.orders
  · cases hp : e.toProgram with
    | ok p => exact absurd (hok.1 ⟨p, hp⟩) hn
    | error err =>
      have hk : err.kind = .structural := e.toProgram_structural err hp
      exact ⟨err, rfl, hk, by rw [hk]; rfl⟩

/-- Instructions and arguments out of sequence. -/
def shuffled : Element where
  name := "program"
  attributes := [("name", "test"), ("language", "ippcode22")]
  children := [
    { name := "instruction"
      attributes := [("order", " +07 "), ("opcode", "move")]
      children := [
        { name := "arg2", attributes := [("type", "int")], text := "-1" },
        { name := "arg1", attributes := [("type", "var")], text := "GF@x" }] },
    { name := "instruction"
      attributes := [("opcode", "DefVar"), ("order", "1")]
      children := [{ name := "arg1", attributes := [("type", "var")], text := "GF@x" }] }]

/-- The second argument is called the third. -/
def gapped : Element where
  name := "program"
  attributes := [("language", "IPPcode22")]
  children := [
    { name := "instruction"
      attributes := [("order", "1"), ("opcode", "MOVE")]
      children := [
        { name := "arg1", attributes := [("type", "var")], text := "GF@x" },
        { name := "arg3", attributes := [("type", "int")], text := "1" }] }]

theorem shuffled_denotes : shuffled.DenotesProgram
    [⟨7, .move, [.var ⟨.gf, "x"⟩, .literal (.int (-1))]⟩, ⟨1, .defVar, [.var ⟨.gf, "x"⟩]⟩] where
  name := rfl
  language := ⟨"ippcode22", rfl, by decide⟩
  instructions := by
    have hx : DenotesArgument { name := "arg1", attributes := [("type", "var")], text := "GF@x" }
        (.var ⟨.gf, "x"⟩) := ⟨.var, rfl, by cbv⟩
    refine .cons ?_ (.cons ?_ .nil)
    · exact ⟨rfl, ⟨"move", rfl, by decide⟩, ⟨" +07 ", rfl, readOrder_eq_ok.1 (by cbv)⟩,
        ⟨_, .swap _ _ _, by decide, .cons hx (.cons ⟨.int, rfl, by cbv⟩ .nil)⟩,
        .cons rfl (.cons rfl .nil)⟩
    · exact ⟨rfl, ⟨"DefVar", rfl, by decide⟩, ⟨"1", rfl, readOrder_eq_ok.1 (by cbv)⟩,
        ⟨_, .refl _, by decide, .cons hx .nil⟩, .cons rfl .nil⟩
  orders := by decide

theorem gapped_denotes_none : ¬∃ l, gapped.DenotesProgram l := by
  intro h
  obtain ⟨l, hl⟩ := h
  have hi := hl.instructions
  cases hi with
  | @cons _ i _ _ hi _ =>
    obtain ⟨-, ⟨text, ht, ho⟩, -, ⟨slots, hp, hn, -⟩, -⟩ := hi
    cases ht
    have hmove : Opcode.ofMnemonic "MOVE" = .ok .move := by cbv
    have hi : i.opcode = .move := Except.ok.inj ((Opcode.ofMnemonic_eq_ok.2 ho).symm.trans hmove)
    have hnames := hp.map name
    rw [hn, hi] at hnames
    have harg2 : "arg2" ∈ ["arg1", "arg3"] := hnames.mem_iff.1 (by decide)
    exact absurd harg2 (by decide)

/-- A document with its children out of sequence, and one without the second of two arguments. -/
theorem program_format_shuffled :
    (∃ p, shuffled.toProgram = .ok p ∧
      p.instructions = [⟨1, .defVar, [.var ⟨.gf, "x"⟩]⟩,
        ⟨7, .move, [.var ⟨.gf, "x"⟩, .literal (.int (-1))]⟩]) ∧
    ∃ err, gapped.toProgram = .error err ∧ err.kind = .structural ∧ err.kind.exitCode = 32 := by
  refine ⟨?_, (program_format gapped).2.2 gapped_denotes_none⟩
  let p : Program := ⟨[⟨1, .defVar, [.var ⟨.gf, "x"⟩]⟩,
    ⟨7, .move, [.var ⟨.gf, "x"⟩, .literal (.int (-1))]⟩], by simp⟩
  have hp : shuffled.toProgram = .ok p :=
    ((program_format shuffled).1 p).2 ⟨_, shuffled_denotes, .swap _ _ _, by simp [p]⟩
  exact ⟨p, hp, rfl⟩

end Markup.Element

end ThreeAddress

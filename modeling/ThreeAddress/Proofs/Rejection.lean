import ThreeAddress.Proofs.Loading

namespace ThreeAddress

open Markup

/-- A failure is about the structure of a document. -/
def Structural {α : Type} (r : Except LoadError α) : Prop :=
  ∀ e, r = .error e → e.kind = .structural

namespace Structural

variable {α β : Type}

theorem ok (a : α) : Structural (.ok a) := by
  intro e h
  cases h

theorem error {e : LoadError} (h : e.kind = .structural) :
    Structural (.error e : Except LoadError α) := by
  intro e' he
  cases he
  exact h

theorem bind {r : Except LoadError α} {g : α → Except LoadError β} (hr : Structural r)
    (hg : ∀ a, Structural (g a)) : Structural (r >>= g) := by
  intro e h
  rcases Except.bind_eq_error.1 h with h | ⟨a, -, h⟩
  · exact hr e h
  · exact hg a e h

theorem mapError {ε : Type} {r : Except ε α} {g : ε → LoadError}
    (hg : ∀ e, (g e).kind = .structural) : Structural (r.mapError g) := by
  cases r with
  | ok a => exact ok a
  | error e => exact error (hg e)

theorem foldlM {g : β → α → Except LoadError β} (hg : ∀ b a, Structural (g b a)) (b : β)
    (l : List α) : Structural (l.foldlM g b) := by
  induction l generalizing b with
  | nil => exact ok b
  | cons a l ih =>
    rw [List.foldlM_cons]
    exact bind (hg b a) ih

end Structural

theorem readOrder_structural (text : String) : Structural (readOrder text) := by
  simp only [readOrder]
  split
  · split
    · exact .ok _
    · exact .error rfl
  · exact .error rfl

namespace Markup.Element

variable (e : Element) (order : Nat)

theorem required_structural (element key : String) : Structural (e.required element key) := by
  simp only [required]
  split
  · exact .ok _
  · exact .error rfl

theorem checkSlot_structural (seen : List String) : Structural (checkSlot order seen e) := by
  simp only [checkSlot]
  split
  · exact .error rfl
  · split
    · exact .error rfl
    · exact .ok _

theorem slots_structural : Structural (e.slots order) := by
  simp only [slots]
  refine .bind (.foldlM (fun seen c ↦ c.checkSlot_structural order seen) _ _) fun _ ↦ ?_
  split
  · exact .ok _
  · exact .error rfl

theorem toArgument_structural : Structural (e.toArgument order) := by
  refine .bind (e.required_structural _ _) fun name ↦ ?_
  split
  · exact .error rfl
  · exact .mapError fun _ ↦ rfl

theorem toArguments_structural (opcode : Opcode) (slot : Nat) (l : List (Element × OperandKind)) :
    Structural (toArguments order opcode slot l) := by
  induction l generalizing slot with
  | nil => exact .ok _
  | cons p l ih =>
    refine .bind (p.1.toArgument_structural order) fun a ↦ ?_
    split
    · exact .bind (ih _) fun _ ↦ .ok _
    · exact .error rfl

theorem toInstruction_structural : Structural e.toInstruction := by
  simp only [toInstruction]
  split
  · exact .error rfl
  · refine .bind (e.required_structural _ _) fun name ↦ ?_
    refine .bind (.mapError fun _ ↦ rfl) fun opcode ↦ ?_
    refine .bind (e.required_structural _ _) fun text ↦ ?_
    refine .bind (readOrder_structural text) fun order ↦ ?_
    refine .bind (e.slots_structural order) fun slots ↦ ?_
    split
    · exact .error rfl
    · exact .bind (toArguments_structural _ _ _ _) fun _ ↦ .ok _

theorem addInstruction_structural (l : List Instruction) : Structural (addInstruction l e) := by
  refine .bind e.toInstruction_structural fun i ↦ ?_
  split
  · exact .error rfl
  · exact .ok _

theorem toProgram_structural : Structural e.toProgram := by
  simp only [toProgram]
  split
  · exact .error rfl
  · split
    · exact .error rfl
    · exact .bind (.foldlM (fun l c ↦ c.addInstruction_structural l) _ _) fun _ ↦ .ok _

end Markup.Element

end ThreeAddress

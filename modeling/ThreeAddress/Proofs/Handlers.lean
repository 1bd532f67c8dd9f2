import ThreeAddress.Proofs.Except
import ThreeAddress.Proofs.Frames
import ThreeAddress.Proofs.Step

namespace ThreeAddress

namespace Argument

variable {a : Argument} {fs : Frames} {f : Fault}

def value (fs : Frames) (a : Argument) : Except Fault Value := look fs 0 (some a)

/-- The value that an argument denotes, if it is there. -/
def held (fs : Frames) (a : Argument) : Except Fault Value := a.value fs >>= Value.present

def missing? (fs : Frames) : Argument → Option Fault
  | var v => fs.missing? v
  | _ => none

theorem look_symb (ha : a.fits .symb = true) (k : Nat) : look fs k (some a) = a.value fs := by
  cases a with
  | var v | literal x => rfl
  | label name | type name => cases ha

theorem value_error (ha : a.fits .symb = true) :
    a.value fs = .error f ↔ a.missing? fs = some f := by
  cases a with
  | var v => exact Frames.get_error
  | literal x => simp [value, look, missing?]
  | label name | type name => cases ha

end Argument

def Labels.seek (t : Labels) (name : String) : Except Fault Nat :=
  match t.target? name with
  | some n => .ok n
  | none => .error (.undefinedLabel name)

theorem Labels.seek_ok {t : Labels} {name : String} {n : Nat} :
    t.seek name = .ok n ↔ t.target? name = some n := by
  simp only [seek]
  cases t.target? name <;> simp

namespace Instruction

variable {i : Instruction} {fs : Frames} {v : VarRef} {a b : Argument} {k : Nat}

theorem operand_symb (h : i.arguments[k]? = some a) (ha : a.fits .symb = true) :
    i.operand fs k = a.value fs := by
  rw [operand, h, Argument.look_symb ha]

theorem place_var (h : i.arguments[k]? = some (.var v)) :
    i.place fs k = fs.get v >>= fun _ ↦ .ok v := by
  simp only [place, varAt, h, Except.ok_bind]
  rfl

theorem goal_label {t : Labels} {name : String} (h : i.arguments.head? = some (.label name)) :
    i.goal t = t.seek name := by
  simp only [goal, h]
  cases hn : t.target? name with
  | none => rw [Labels.seek, hn]
  | some n => rw [Labels.seek, hn]

theorem unaryFrames_var (hi : i.arguments = [.var v, a]) (ha : a.fits .symb = true)
    (op : Value → Except Fault Value) :
    i.unaryFrames fs op = (do
      let _ ← fs.get v
      let x ← a.value fs
      let x ← x.present
      let z ← op x
      fs.set v z) := by
  have hv : i.place fs 0 = fs.get v >>= fun _ ↦ .ok v := place_var (by rw [hi]; rfl)
  have h1 : i.operand fs 1 = a.value fs := operand_symb (by rw [hi]; rfl) ha
  simp only [unaryFrames, hv, h1, bind_assoc, Except.ok_bind]

theorem binaryFrames_var (hi : i.arguments = [.var v, a, b]) (ha : a.fits .symb = true)
    (hb : b.fits .symb = true) (op : Value → Value → Except Fault Value) :
    i.binaryFrames fs op = (do
      let _ ← fs.get v
      let x ← a.value fs
      let y ← b.value fs
      let x ← x.present
      let y ← y.present
      let z ← op x y
      fs.set v z) := by
  have hv : i.place fs 0 = fs.get v >>= fun _ ↦ .ok v := place_var (by rw [hi]; rfl)
  have h1 : i.operand fs 1 = a.value fs := operand_symb (by rw [hi]; rfl) ha
  have h2 : i.operand fs 2 = b.value fs := operand_symb (by rw [hi]; rfl) hb
  simp only [binaryFrames, hv, h1, h2, bind_assoc, Except.ok_bind]

theorem setCharFrames_var (hi : i.arguments = [.var v, a, b]) (ha : a.fits .symb = true)
    (hb : b.fits .symb = true) :
    i.setCharFrames fs = (do
      let s ← fs.get v
      let x ← a.value fs
      let y ← b.value fs
      let s ← s.present
      let x ← x.present
      let y ← y.present
      let z ← Value.setChar s x y
      fs.set v z) := by
  have hv : i.place fs 0 = fs.get v >>= fun _ ↦ .ok v := place_var (by rw [hi]; rfl)
  have h0 : i.operand fs 0 = fs.get v := by
    rw [operand, hi]
    rfl
  have h1 : i.operand fs 1 = a.value fs := operand_symb (by rw [hi]; rfl) ha
  have h2 : i.operand fs 2 = b.value fs := operand_symb (by rw [hi]; rfl) hb
  simp only [setCharFrames, hv, h0, h1, h2, bind_assoc, Except.ok_bind]
  cases hs : fs.get v with
  | ok s => simp only [Except.ok_bind]
  | error f => rfl

theorem typeFrames_var (hi : i.arguments = [.var v, a]) (ha : a.fits .symb = true) :
    i.typeFrames fs = (do
      let _ ← fs.get v
      let x ← a.value fs
      fs.set v (.string x.typeName)) := by
  have hv : i.place fs 0 = fs.get v >>= fun _ ↦ .ok v := place_var (by rw [hi]; rfl)
  have h1 : i.operand fs 1 = a.value fs := operand_symb (by rw [hi]; rfl) ha
  simp only [typeFrames, hv, h1, bind_assoc, Except.ok_bind]

end Instruction

end ThreeAddress

import Mathlib
import ThreeAddress.Proofs.Lockstep
import ThreeAddress.Proofs.Sink

namespace ThreeAddress

/-- Streams with the same limit; they are equal if `quiet` holds. -/
structure Sink.Parallel (quiet : Prop) (limit : Option Nat) (s d : Sink) : Prop where
  limit_left : s.limit = limit
  limit_right : d.limit = limit
  eq : quiet → d = s

namespace Machine

/-- After `n` steps the second machine is where the first one is, with the same outcome up to the
names of orders and labels. -/
structure RunsAs (f : Nat → Nat) (g : String → String) (n : Nat) (m m' : Machine) : Prop where
  agrees : (m.execute n).1.Agrees (m'.execute n).1
  outcome : (m'.execute n).2 = (m.execute n).2.map (·.rename f g)

/-- Before `n` steps are done, the machines have come to a diagnostic text that is refused by the
stream of one of them alone. -/
def PartBefore (n : Nat) (m m' : Machine) : Prop :=
  ∃ k < n, ∃ m₁ m₁', m.execute k = (m₁, none) ∧ m'.execute k = (m₁', none) ∧
    m₁.Agrees m₁' ∧ m₁.Parts m₁'.diagnostics

variable {f : Nat → Nat} {g : String → String} {l : List Instruction} {quiet : Prop}
  {limit : Option Nat} {m : Machine} {d : Sink}

theorem lockstep_renamed (hf : StrictMonoOn f {n | n ∈ l.map (·.order)}) (hg : g.Injective)
    (limit : Option Nat) :
    Lockstep (.ofList l) (.ofList (l.map (·.rename f g))) f g
      (Sink.Parallel (∀ i ∈ l, i.opcode ≠ .breakpoint) limit) where
  injective := hg
  instructions := Program.ofList_rename hf g
  write s d text h := ⟨h.limit_left, h.limit_right, fun hq ↦ by rw [h.eq hq]⟩
  report i hi ho m d _ h :=
    ⟨h.limit_left, h.limit_right, fun hq ↦ absurd ho (hq i (Program.mem_ofList.1 hi))⟩

theorem Parts.limited (hp : m.Parts d) (h : Sink.Parallel quiet limit m.diagnostics d) :
    limit ≠ none ∧ ¬ quiet := by
  obtain ⟨i, x, -, -, -, hx⟩ := hp
  constructor
  · rintro rfl
    rw [Sink.write_of_limit_none h.limit_left, Sink.write_of_limit_none h.limit_right] at hx
    exact hx rfl
  · intro hq
    rw [h.eq hq] at hx
    exact hx rfl

/-- Orders and labels matter only up to an increasing renumbering and an injective renaming. What a
report says depends on orders, and so the runs of two such programs can part, but only where reports
have filled a limited diagnostic stream to a different extent. -/
theorem renaming_agrees (hf : StrictMonoOn f {n | n ∈ l.map (·.order)}) (hg : g.Injective)
    (input : List UInt8) (output diagnostics : Sink) (n : Nat) :
    let m := fresh (.ofList l) input output diagnostics
    let m' := fresh (.ofList (l.map (·.rename f g))) input output diagnostics
    (m.RunsAs f g n m' ∧ ((∀ i ∈ l, i.opcode ≠ .breakpoint) →
        (m'.execute n).1.diagnostics = (m.execute n).1.diagnostics)) ∨
      diagnostics.limit ≠ none ∧ (∃ i ∈ l, i.opcode = .breakpoint) ∧ m.PartBefore n m' := by
  intro m m'
  have hs := lockstep_renamed hf hg diagnostics.limit
  have hm : m.recast (.ofList (l.map (·.rename f g))) g diagnostics = m' := rfl
  rcases hs.execute (m := m) (d := diagnostics) rfl ⟨rfl, rfl, fun _ ↦ rfl⟩ n with
    ⟨d, he, hd⟩ | ⟨k, hk, m₁, d, he, he', -, hd, hp⟩
  · rw [hm] at he
    refine .inl ⟨⟨?_, ?_⟩, fun hq ↦ ?_⟩
    · rw [he]
      exact agrees_recast _ _ _ _
    · rw [he]
    · rw [he]
      exact hd.eq hq
  · rw [hm] at he'
    obtain ⟨hl, hq⟩ := hp.limited hd
    refine .inr ⟨hl, ?_, k, hk, m₁, _, he, he', agrees_recast _ _ _ _, hp⟩
    simpa only [ne_eq, not_forall, not_not, exists_prop] using hq

/-- Two instructions have the same order, and the jump goes to the one that comes first. -/
def sharedOrder : List Instruction :=
  [⟨7, .label, [.label "a"]⟩, ⟨2, .jump, [.label "a"]⟩, ⟨7, .exit, [.literal (.int 60)]⟩]

/-- The exit fails at the renumbered order, after as many steps. -/
theorem renaming_agrees_shared_order :
    StrictMonoOn (3 * ·) {n | n ∈ sharedOrder.map (·.order)} ∧ Function.Injective ("l-" ++ ·) ∧
      ∃ m m', execute 3 (fresh (.ofList sharedOrder) [] {} {}) =
          (m, some (.failed ⟨.exitCodeOutOfRange 60, 7, .exit⟩)) ∧
        execute 3 (fresh (.ofList (sharedOrder.map (·.rename (3 * ·) ("l-" ++ ·)))) [] {} {}) =
          (m', some (.failed ⟨.exitCodeOutOfRange 60, 21, .exit⟩)) ∧
        m.executed = 1 ∧ m.Agrees m' ∧ m'.diagnostics = m.diagnostics := by
  have hf : StrictMonoOn (3 * ·) {n | n ∈ sharedOrder.map (·.order)} :=
    fun a _ b _ hab ↦ by dsimp only; omega
  have hg : Function.Injective ("l-" ++ ·) := fun a b hab ↦ (String.append_right_inj "l-").1 hab
  refine ⟨hf, hg, _, _, Prod.ext rfl ?_, Prod.ext rfl ?_, ?_, ?_⟩
  · cbv
  · cbv
  · cbv
  · rcases renaming_agrees hf hg [] {} {} 3 with ⟨hr, hq⟩ | ⟨hl, -⟩
    · exact ⟨hr.agrees, hq (by decide)⟩
    · exact absurd rfl hl

/-- The report takes one byte more when its order has one digit more. -/
def reportedPrint : List Instruction :=
  [⟨1, .breakpoint, []⟩, ⟨2, .dprint, [.literal (.string "x")]⟩]

/-- A stream that has room for a report and one byte more has no room for the byte when the orders
are renumbered. -/
theorem renaming_disagrees_after_report :
    StrictMonoOn (· + 9) {n | n ∈ reportedPrint.map (·.order)} ∧
      Function.Injective (id : String → String) ∧
      (execute 3 (fresh (.ofList reportedPrint) [] {} { limit := some 164 })).2 =
        some (.exit 0) ∧
      (execute 3 (fresh (.ofList (reportedPrint.map (·.rename (· + 9) id))) [] {}
        { limit := some 164 })).2 = some (.failed ⟨.output, 11, .dprint⟩) := by
  refine ⟨fun a _ b _ hab ↦ Nat.add_lt_add_right hab 9, Function.injective_id, ?_, ?_⟩
  · rw [Program.ofList_of_sorted (by decide)]
    decide +kernel
  · rw [Program.ofList_of_sorted (by decide)]
    decide +kernel

end Machine

end ThreeAddress

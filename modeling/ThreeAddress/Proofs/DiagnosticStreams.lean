import ThreeAddress.Proofs.Lockstep
import ThreeAddress.Proofs.Sink

namespace ThreeAddress

theorem Argument.rename_id (a : Argument) : a.rename id = a := by
  cases a <;> rfl

theorem Instruction.rename_id (i : Instruction) : i.rename id id = i := by
  have ha : i.arguments.map (·.rename id) = i.arguments := by
    simp only [Argument.rename_id, List.map_id']
  rw [rename, ha]
  rfl

theorem Fault.rename_id (e : Fault) : e.rename id = e := by
  cases e <;> rfl

theorem Outcome.rename_id (o : Outcome) : o.rename id id = o := by
  cases o with
  | exit code => rfl
  | failed e =>
    rw [rename, RuntimeError.rename, Fault.rename_id]
    rfl

namespace Machine

variable {p : Program} {m : Machine} {d d' : Sink}

theorem report_recast (hp : m.program = p) (g : String → String) (d : Sink) :
    (m.recast p g d).report = m.report := by
  subst hp
  rfl

theorem lockstep_streams (p : Program) (d d' : Sink) :
    Lockstep p p id id fun s s' ↦ Sink.Behind d d' → Sink.Behind s s' where
  injective := Function.injective_id
  instructions := by simp only [Instruction.rename_id, List.map_id']
  write _ _ text h hb := (h hb).write text
  report _ _ _ m s hp h hb := by
    rw [report_recast hp]
    exact (h hb).write m.report

theorem not_parts (hp : ∀ i ∈ m.program.instructions, i.opcode ≠ .dprint) : ¬ m.Parts d := by
  rintro ⟨i, x, hi, ho, -, -⟩
  exact hp i (List.mem_of_getElem? hi) ho

/-- Without `DPRINT`, what becomes of the diagnostics is no matter for a run. A stream that refuses
some of the reports has taken in a first part of them. -/
theorem break_never_disturbs (hp : ∀ i ∈ p.instructions, i.opcode ≠ .dprint)
    (input : List UInt8) (output d d' : Sink) (n : Nat) :
    let r := (fresh p input output d).execute n
    let r' := (fresh p input output d').execute n
    r.1.Agrees r'.1 ∧ r'.2 = r.2 ∧ (d.limit = none → d'.accepted = d.accepted →
      ∃ rest, r.1.diagnostics.accepted = r'.1.diagnostics.accepted ++ rest) := by
  intro r r'
  have hm : (fresh p input output d).recast p id d' = fresh p input output d' := rfl
  rcases (lockstep_streams p d d').execute (m := fresh p input output d) rfl id n with
    ⟨s, he, hs⟩ | ⟨k, -, m₁, s, -, -, hm₁, -, hs⟩
  · have ho : r.2.map (·.rename id id) = r.2 := by simp only [Outcome.rename_id, Option.map_id']
    rw [hm] at he
    have hr : r' = (r.1.recast p id s, r.2) := he.trans (by rw [ho])
    rw [hr]
    refine ⟨agrees_recast p id s r.1, rfl, fun hd ha ↦ ?_⟩
    have hb : Sink.Behind d d' := ⟨hd, .empty, by rw [ha, ByteArray.append_empty], .inl rfl⟩
    obtain ⟨rest, hrest, -⟩ := (hs hb).accepted
    exact ⟨rest, hrest⟩
  · exact absurd hs (not_parts (by rwa [hm₁]))

def reportedWrite : List Instruction :=
  [⟨1, .breakpoint, []⟩, ⟨2, .write, [.literal (.string "a")]⟩, ⟨3, .breakpoint, []⟩]

/-- The stream takes five bytes of the first report and nothing of the second one. -/
theorem break_never_disturbs_cut :
    (∀ i ∈ (Program.ofList reportedWrite).instructions, i.opcode ≠ .dprint) ∧
      ∃ m m', (fresh (.ofList reportedWrite) [] {} {}).execute 4 = (m, some (.exit 0)) ∧
        (fresh (.ofList reportedWrite) [] {} { limit := some 5 }).execute 4 =
          (m', some (.exit 0)) ∧
        m.Agrees m' ∧ m.output.accepted = "a".toUTF8 ∧
        m'.diagnostics.accepted = "-- BR".toUTF8 ∧
        ∃ rest, m.diagnostics.accepted = m'.diagnostics.accepted ++ rest := by
  rw [Program.ofList_of_sorted (by decide)]
  have hp : ∀ i ∈ reportedWrite, i.opcode ≠ .dprint := by decide
  obtain ⟨ha, ho, hd⟩ :=
    break_never_disturbs (p := ⟨reportedWrite, by decide⟩) hp [] {} {} { limit := some 5 } 4
  refine ⟨hp, _, _, Prod.ext rfl ?_, Prod.ext rfl (ho.trans ?_), ha, ?_, ?_, hd rfl rfl⟩
  all_goals decide +kernel

end Machine

end ThreeAddress

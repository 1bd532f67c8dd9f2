import ThreeAddress.Proofs.Changes
import ThreeAddress.Proofs.Stretch

namespace ThreeAddress

/-- Moving the frames about puts frames on top of the stack, or takes the top one as the temporary
frame. -/
theorem Opcode.arrange_locals (o : Opcode) (fs : Frames) :
    (∃ l, (o.arrange fs).locals = l ++ fs.locals) ∨
      o = .popFrame ∧ ∃ f, fs.locals = f :: (o.arrange fs).locals ∧
        (o.arrange fs).temporary = some f := by
  cases o with
  | pushFrame => exact .inl ⟨fs.temporary.toList, rfl⟩
  | popFrame =>
    cases hl : fs.locals with
    | nil => exact .inl ⟨[], by rw [arrange, hl]; rfl⟩
    | cons f l => exact .inr ⟨rfl, f, by rw [arrange, hl]; exact ⟨rfl, rfl⟩⟩
  | _ => exact .inl ⟨[], rfl⟩

namespace Instruction

variable {i : Instruction} {fs fs' : Frames} {m m' : Machine} {flow : Flow} {f : Frame}
  {upper lower : List Frame}

/-- What a completed instruction does to the calls in progress. -/
theorem Completes.calls (h : i.Completes m flow m') :
    i.opcode = .call ∧ m'.calls = m.pc :: m.calls ∨
      i.opcode = .ret ∧ (∃ n, m.calls = n :: m'.calls ∧ flow = .jump (n + 1)) ∨
      i.opcode ≠ .call ∧ i.opcode ≠ .ret ∧ m'.calls = m.calls := by
  cases h with
  | call ho => exact .inl ⟨ho, rfl⟩
  | ret ho hr => exact .inr (.inl ⟨ho, _, hr, rfl⟩)
  | reframe hF =>
    refine .inr (.inr ⟨?_, ?_, rfl⟩)
    all_goals
      intro ho
      simp only [reframe?, ho, reduceCtorEq] at hF
  | pushs ho | pops ho | clears ho | read ho | write ho | label ho | jump ho | jumpIf ho | exit ho
  | dprint ho | breakpoint ho | binaryStack ho | unaryStack ho | jumpIfStack ho =>
    exact .inr (.inr (by simp [ho]))

theorem Completes.pushFrame (ho : i.opcode = .pushFrame) (h : i.Completes m flow m') :
    ∃ f, m.frames.temporary = some f ∧ m'.frames.locals = f :: m.frames.locals := by
  cases h with
  | reframe hF hfs =>
    simp only [reframe?, ho, Option.some.injEq] at hF
    subst hF
    simp only [Frames.push] at hfs
    split at hfs
    · next f hf =>
      cases hfs
      exact ⟨f, hf, rfl⟩
    · cases hfs
  | call h | ret h | pushs h | pops h | clears h | read h | write h | label h | jump h | jumpIf h
  | exit h | dprint h | breakpoint h | binaryStack h | unaryStack h | jumpIfStack h =>
    rw [h] at ho
    cases ho

/-- The change that an instruction has made to the local frame when it leaves `fs` behind. -/
def localChange? (i : Instruction) (fs : Frames) : Option Change :=
  (i.change? fs).bind fun p ↦ if p.1 = .lf then some p.2 else none

namespace Alters

/-- Only `POPFRAME` makes the stack lower. It keeps the frame that was on top. -/
theorem popped (h : i.Alters fs fs') (hd : fs'.depth < fs.depth) :
    i.opcode = .popFrame ∧ ∃ f, fs.locals = f :: fs'.locals ∧ fs'.temporary = some f := by
  cases h with
  | arranged _ ha =>
    subst ha
    rcases i.opcode.arrange_locals fs with ⟨l, hl⟩ | hp
    · simp only [Frames.depth, hl, List.length_append] at hd
      omega
    · exact hp
  | @changed kind f c _ hf he =>
    subst he
    cases kind with
    | gf | tf => exact absurd hd (Nat.lt_irrefl _)
    | lf =>
      obtain ⟨l, hl⟩ := List.head?_eq_some_iff.1 hf
      simp only [Frames.depth, Frames.replace, hl, List.tail_cons, List.length_cons] at hd
      omega

/-- A frame that stays on the stack is changed only on top of it, and those below it are not. -/
theorem locals (h : i.Alters fs fs') (hl : fs.locals = upper ++ f :: lower)
    (hd : lower.length < fs'.depth) :
    ∃ upper', fs'.locals = upper' ++
      (if upper = [] then (i.localChange? fs').elim f f.change else f) :: lower := by
  cases h with
  | arranged hc ha =>
    have hn : i.localChange? fs' = none := by rw [localChange?, hc, Option.bind_none]
    rw [hn, Option.elim_none, ite_self]
    subst ha
    rcases i.opcode.arrange_locals fs with ⟨l, hl'⟩ | ⟨-, g, hg, -⟩
    · exact ⟨l ++ upper, by rw [hl', hl, List.append_assoc]⟩
    · rw [hl] at hg
      cases upper with
      | nil =>
        rw [Frames.depth, ← (List.cons.inj hg).2] at hd
        exact absurd hd (Nat.lt_irrefl _)
      | cons g' u => exact ⟨u, (List.cons.inj hg).2.symm⟩
  | @changed kind g c hc hf he =>
    subst he
    have hn : i.localChange? (fs.replace (g.change c) kind) =
        if kind = .lf then some c else none := by rw [localChange?, hc, Option.bind_some]
    rw [hn]
    cases kind with
    | gf | tf =>
      refine ⟨upper, ?_⟩
      simp only [reduceCtorEq, ↓reduceIte, Option.elim_none, ite_self]
      exact hl
    | lf =>
      rw [Frames.frame?, hl] at hf
      cases upper with
      | nil =>
        cases hf
        exact ⟨[], by rw [Frames.replace, hl]; rfl⟩
      | cons g' u =>
        exact ⟨g.change c :: u, by rw [Frames.replace, hl]; rfl⟩

end Alters

end Instruction

/-- An item with at least as many below it as the top one has is on top itself. -/
theorem top_of_length_le {α : Type} {upper lower l : List α} {a b : α}
    (h : upper ++ a :: lower = b :: l) (hl : l.length ≤ lower.length) : a = b ∧ lower = l := by
  cases upper with
  | nil => exact List.cons.inj h
  | cons c upper =>
    have hu : upper ++ a :: lower = l := (List.cons.inj h).2
    rw [← hu, List.length_append, List.length_cons] at hl
    omega

namespace Machine

variable {m m' : Machine} {ms : List Machine} {phase phase' : Phase} {i : Instruction} {f : Frame}
  {upper lower : List Frame} {above below : List Nat} {c n : Nat}

theorem advance_alters (hi : m.instruction? = some i) (h : m.advance = (m', none)) :
    i.Alters m.frames m'.frames := by
  obtain ⟨j, flow, m₁, hj, hc, hf⟩ := advance_next h
  cases hi.symm.trans hj
  have hk := follow_frames (m := m₁) flow
  rw [hf] at hk
  rw [hk]
  exact hc.alters

/-- The changes that the instructions of the machines in a list make to the local frame while the
stack has `depth` frames. -/
def localChanges (depth : Nat) (ms : List Machine) : List Change :=
  (ms.filter fun m ↦ m.frames.depth = depth).filterMap fun m ↦
    m.instruction?.bind fun i ↦ i.localChange? m.advance.1.frames

theorem localChanges_cons (hi : m.instruction? = some i) (h : m.advance = (m', none)) :
    localChanges n (m :: ms) =
      (if m.frames.depth = n then (i.localChange? m'.frames).toList else []) ++
        localChanges n ms := by
  by_cases hd : m.frames.depth = n
  · cases hc : i.localChange? m'.frames <;> simp [localChanges, hd, hi, h, hc]
  · simp [localChanges, hd]

/-- Along a stretch that keeps a frame on the stack, its own changes are made to it. -/
theorem Stretch.locals (h : Stretch (fun k ↦ n < k.frames.depth) phase m ms phase' m')
    (hn : lower.length = n) (hm : m.frames.locals = upper ++ f :: lower) :
    ∃ upper', m'.frames.locals =
      upper' ++ (localChanges (n + 1) ms).foldl Frame.change f :: lower := by
  induction h generalizing upper f with
  | refl => exact ⟨upper, hm⟩
  | start _ hs _ ih => exact ih (by rw [(start_kept hs).1, hm])
  | stop _ ha _ ih => exact ih (by rw [(stop_kept ha).1, hm])
  | @next m m₁ m' ms phase hd ha ht ih =>
    obtain ⟨i, flow, _, hi, -⟩ := advance_next ha
    have hd₁ : lower.length < m₁.frames.depth := hn ▸ ht.first
    obtain ⟨upper₁, hm₁⟩ := (advance_alters hi ha).locals hm hd₁
    obtain ⟨upper', hm'⟩ := ih hm₁
    refine ⟨upper', ?_⟩
    rw [hm', localChanges_cons hi ha, List.foldl_append]
    congr 2
    have hu : upper = [] ↔ m.frames.depth = n + 1 := by
      rw [Frames.depth, hm, List.length_append, List.length_cons, hn, ← List.length_eq_zero_iff]
      omega
    by_cases hu' : upper = []
    · rw [if_pos hu', if_pos (hu.1 hu')]
      cases i.localChange? m₁.frames <;> rfl
    · rw [if_neg hu', if_neg (mt hu.2 hu')]
      rfl

theorem advance_calls (hi : m.instruction? = some i) (h : m.advance = (m', none)) :
    i.opcode = .call ∧ m'.calls = m.pc :: m.calls ∨
      i.opcode = .ret ∧ (∃ c, m.calls = c :: m'.calls ∧ m'.pc = c + 1) ∨
      i.opcode ≠ .call ∧ i.opcode ≠ .ret ∧ m'.calls = m.calls := by
  obtain ⟨j, flow, m₁, hj, hc, hf⟩ := advance_next h
  cases hi.symm.trans hj
  have hk := follow_calls (m := m₁) flow
  rw [hf] at hk
  rw [hk]
  refine hc.calls.imp_right (Or.imp_left fun ⟨ho, c, hc, hflow⟩ ↦ ⟨ho, c, hc, ?_⟩)
  rw [hflow] at hf
  exact congrArg (·.1.pc) hf.symm

/-- Along a stretch on which a call is not returned from, nothing below it is either. -/
theorem Stretch.calls (h : Stretch (fun k ↦ n < k.calls.length) phase m ms phase' m')
    (hn : below.length = n) (hm : m.calls = above ++ c :: below) :
    ∃ above', m'.calls = above' ++ c :: below := by
  induction h generalizing above with
  | refl => exact ⟨above, hm⟩
  | start _ hs _ ih => exact ih (by rw [(start_kept hs).2, hm])
  | stop _ ha _ ih => exact ih (by rw [(stop_kept ha).2, hm])
  | @next m m₁ m' ms phase hd ha ht ih =>
    have hd₁ : n < m₁.calls.length := ht.first
    obtain ⟨i, flow, _, hi, -⟩ := advance_next ha
    rcases advance_calls hi ha with ⟨-, hc⟩ | ⟨-, b, hb, -⟩ | ⟨-, -, hc⟩
    · have hm₁ : m₁.calls = (m.pc :: above) ++ c :: below := by rw [hc, hm, List.cons_append]
      exact ih hm₁
    · rw [hm] at hb
      cases above with
      | nil =>
        rw [← (List.cons.inj hb).2, hn] at hd₁
        exact absurd hd₁ (Nat.lt_irrefl _)
      | cons a above => exact ih (List.cons.inj hb).2.symm
    · exact ih (by rw [hc, hm])

/-- Below a call in progress the stack of calls is left alone, and the return from it goes on behind
it, with the calls that were in progress then. -/
theorem call_returns {m m₁ m₂ m₃ : Machine} {ms : List Machine} {i : Instruction}
    (hi : m.instruction? = some i) (ho : i.opcode = .call) (hc : m.advance = (m₁, none))
    (h : Stretch (fun k ↦ m.calls.length < k.calls.length) .running m₁ ms .running m₂)
    (hr : m₂.advance = (m₃, none)) (hd : m₃.calls.length ≤ m.calls.length) :
    (∃ j, m₂.instruction? = some j ∧ j.opcode = .ret) ∧
      m₃.pc = m.pc + 1 ∧ m₃.calls = m.calls := by
  have hm₁ : m₁.calls = [] ++ m.pc :: m.calls := by
    rcases advance_calls hi hc with ⟨-, h⟩ | ⟨h, -⟩ | ⟨h, -⟩
    · exact h
    · rw [ho] at h
      cases h
    · exact absurd ho h
  obtain ⟨above, hm₂⟩ := h.calls rfl hm₁
  obtain ⟨j, _, _, hj, -⟩ := advance_next hr
  have hlast : m.calls.length < m₂.calls.length := h.last
  rcases advance_calls hj hr with ⟨-, hc⟩ | ⟨ho, c, hc, hpc⟩ | ⟨-, -, hc⟩
  · rw [hc, List.length_cons] at hd
    omega
  · obtain ⟨hc₀, hcalls⟩ := top_of_length_le (hm₂.symm.trans hc) hd
    exact ⟨⟨j, hj, ho⟩, by rw [hpc, hc₀], hcalls.symm⟩
  · rw [hc] at hd
    omega

/-- A function that calls another one, with the calls at 0 and 3. -/
def callingProgram : Program :=
  .ofList [⟨1, .call, [.label "f"]⟩, ⟨2, .jump, [.label "end"]⟩, ⟨3, .label, [.label "f"]⟩,
    ⟨4, .call, [.label "g"]⟩, ⟨5, .ret, []⟩, ⟨6, .label, [.label "g"]⟩, ⟨7, .ret, []⟩,
    ⟨8, .label, [.label "end"]⟩]

def calling (pc executed : Nat) (calls : List Nat) : Machine :=
  { fresh callingProgram [] {} {} with
    labels := ⟨[("end", 8), ("g", 6), ("f", 3)]⟩
    pc, executed, calls }

theorem call_returns_nested :
    Session (fresh callingProgram [] {} {}) .running (calling 0 0 []) ∧
      (calling 0 0 []).advance = (calling 3 1 [0], none) ∧
      Stretch (fun k ↦ 0 < k.calls.length) .running (calling 3 1 [0])
        [calling 3 1 [0], calling 6 2 [3, 0]] .running (calling 4 3 [0]) ∧
      (calling 4 3 [0]).advance = (calling 1 4 [], none) ∧
      Session (fresh callingProgram [] {} {}) .running (calling 1 4 []) ∧
      (calling 1 4 []).pc = (calling 0 0 []).pc + 1 ∧
      (calling 1 4 []).calls = (calling 0 0 []).calls := by
  have hm : Session (fresh callingProgram [] {} {}) .running (calling 0 0 []) :=
    .start .fresh (by cbv)
  have hi : (calling 0 0 []).instruction? = some ⟨1, .call, [.label "f"]⟩ := by cbv
  have hc : (calling 0 0 []).advance = (calling 3 1 [0], none) := by cbv
  have hs : Stretch (fun k ↦ 0 < k.calls.length) .running (calling 3 1 [0])
      [calling 3 1 [0], calling 6 2 [3, 0]] .running (calling 4 3 [0]) :=
    .next (by decide) (by cbv) (.next (by decide) (by cbv) (.refl (by decide)))
  have hr : (calling 4 3 [0]).advance = (calling 1 4 [], none) := by cbv
  exact ⟨hm, hc, hs, hr, ((hm.next hc).stretch hs).next hr,
    (call_returns hi rfl hc hs hr (Nat.le_refl 0)).2⟩

theorem exists_above {l : List Frame} (h : n < l.length) :
    ∃ upper f lower, l = upper ++ f :: lower ∧ lower.length = n := by
  have hl : (l.drop (l.length - (n + 1))).length = n + 1 := by
    rw [List.length_drop]
    omega
  obtain ⟨f, lower, hd⟩ := List.exists_of_length_succ _ hl
  refine ⟨l.take (l.length - (n + 1)), f, lower, ?_, ?_⟩
  · rw [← hd, List.take_append_drop]
  · rw [hd, List.length_cons] at hl
    exact Nat.succ.inj hl

theorem rtake_above (hn : lower.length = n) : (upper ++ f :: lower).rtake n = lower := by
  have hs : (upper ++ [f] ++ lower).length - n = (upper ++ [f]).length := by
    rw [List.length_append, hn, Nat.add_sub_cancel]
  rw [List.append_cons, List.rtake, hs, List.drop_left]

/-- As long as the stack has more than `n` frames, the lowest `n` stay as they are. A frame that is
pushed comes back as the temporary frame, with the changes made to it while it was on top, and the
stack is then the one it was pushed onto. -/
theorem local_frames_encapsulated :
    (∀ (n : Nat) (phase : Phase) (m : Machine) (ms : List Machine) (phase' : Phase) (m' : Machine),
      Stretch (fun k ↦ n < k.frames.depth) phase m ms phase' m' →
        m'.frames.locals.rtake n = m.frames.locals.rtake n) ∧
    ∀ (m m₁ : Machine) (ms : List Machine) (m₂ m₃ : Machine) (i : Instruction),
      m.instruction? = some i → i.opcode = .pushFrame → m.advance = (m₁, none) →
      Stretch (fun k ↦ m.frames.depth < k.frames.depth) .running m₁ ms .running m₂ →
      m₂.advance = (m₃, none) → m₃.frames.depth ≤ m.frames.depth →
      ∃ f, m.frames.temporary = some f ∧
        (∃ j, m₂.instruction? = some j ∧ j.opcode = .popFrame) ∧
        m₃.frames.locals = m.frames.locals ∧
        m₃.frames.temporary = some ((localChanges (m.frames.depth + 1) ms).foldl Frame.change f) ∧
        f.names <+: ((localChanges (m.frames.depth + 1) ms).foldl Frame.change f).names := by
  refine ⟨?_, ?_⟩
  · intro n phase m ms phase' m' h
    obtain ⟨upper, f, lower, hm, hn⟩ := exists_above h.first
    obtain ⟨upper', hm'⟩ := h.locals hn hm
    rw [hm, hm', rtake_above hn, rtake_above hn]
  · intro m m₁ ms m₂ m₃ i hi ho hp h hr hd
    obtain ⟨j, flow, k, hj, hc, hf⟩ := advance_next hp
    cases hi.symm.trans hj
    obtain ⟨f, hfs, hl⟩ := hc.pushFrame ho
    have hk := follow_frames (m := k) flow
    rw [hf] at hk
    have hm₁ : m₁.frames.locals = [] ++ f :: m.frames.locals := by rw [hk, hl, List.nil_append]
    obtain ⟨upper, hm₂⟩ := h.locals rfl hm₁
    obtain ⟨j, _, _, hj, -⟩ := advance_next hr
    have hlast : m.frames.depth < m₂.frames.depth := h.last
    obtain ⟨hpop, g, hg, ht⟩ := (advance_alters hj hr).popped (Nat.lt_of_le_of_lt hd hlast)
    obtain ⟨hfg, hlocals⟩ := top_of_length_le (hm₂.symm.trans hg) hd
    refine ⟨f, hfs, ⟨j, hj, hpop⟩, hlocals.symm, ?_, Frame.names_changes _ _⟩
    rw [ht, hfg]

/-- A frame is pushed onto another one, which then gets its value, and both are popped. -/
def framingProgram : Program :=
  .ofList [⟨1, .createFrame, []⟩, ⟨2, .pushFrame, []⟩, ⟨3, .defVar, [.var ⟨.lf, "x"⟩]⟩,
    ⟨4, .createFrame, []⟩, ⟨5, .pushFrame, []⟩, ⟨6, .defVar, [.var ⟨.lf, "y"⟩]⟩,
    ⟨7, .popFrame, []⟩, ⟨8, .move, [.var ⟨.lf, "x"⟩, .literal (.int 1)]⟩, ⟨9, .popFrame, []⟩]

/-- The machine that has gone through the program down to `pc`. -/
def framing (pc : Nat) (locals : List Frame) (temporary : Option Frame) : Machine :=
  { fresh framingProgram [] {} {} with
    frames := { locals, temporary }
    pc, executed := pc }

def framed : List Machine :=
  [framing 2 [{}] none, framing 3 [⟨[("x", .undefined)]⟩] none,
    framing 4 [⟨[("x", .undefined)]⟩] (some {}), framing 5 [{}, ⟨[("x", .undefined)]⟩] none,
    framing 6 [⟨[("y", .undefined)]⟩, ⟨[("x", .undefined)]⟩] none,
    framing 7 [⟨[("x", .undefined)]⟩] (some ⟨[("y", .undefined)]⟩)]

/-- While the second frame is there the first one stays as it is, and it comes back with the value
that it gets after that. -/
theorem local_frames_encapsulated_nested :
    Session (fresh framingProgram [] {} {}) .running (framing 1 [] (some {})) ∧
      (framing 1 [] (some {})).advance = (framing 2 [{}] none, none) ∧
      Stretch (fun k ↦ 0 < k.frames.depth) .running (framing 2 [{}] none) framed .running
        (framing 8 [⟨[("x", .int 1)]⟩] (some ⟨[("y", .undefined)]⟩)) ∧
      localChanges 1 framed = [.define "x", .assign "x" (.int 1)] ∧
      (framing 9 [] (some ⟨[("x", .int 1)]⟩)).frames.temporary =
        some ((localChanges 1 framed).foldl Frame.change {}) ∧
      Stretch (fun k ↦ 1 < k.frames.depth) .running (framing 5 [{}, ⟨[("x", .undefined)]⟩] none)
        [framing 5 [{}, ⟨[("x", .undefined)]⟩] none] .running
        (framing 6 [⟨[("y", .undefined)]⟩, ⟨[("x", .undefined)]⟩] none) ∧
      (framing 6 [⟨[("y", .undefined)]⟩, ⟨[("x", .undefined)]⟩] none).frames.locals.rtake 1 =
        (framing 5 [{}, ⟨[("x", .undefined)]⟩] none).frames.locals.rtake 1 := by
  have hm : Session (fresh framingProgram [] {} {}) .running (framing 1 [] (some {})) :=
    .next (.start .fresh (by cbv)) (by cbv)
  have hi : (framing 1 [] (some {})).instruction? = some ⟨2, .pushFrame, []⟩ := by cbv
  have hp : (framing 1 [] (some {})).advance = (framing 2 [{}] none, none) := by cbv
  have hn : Stretch (fun k ↦ 1 < k.frames.depth) .running
      (framing 5 [{}, ⟨[("x", .undefined)]⟩] none)
      [framing 5 [{}, ⟨[("x", .undefined)]⟩] none] .running
      (framing 6 [⟨[("y", .undefined)]⟩, ⟨[("x", .undefined)]⟩] none) :=
    .next (by decide) (by cbv) (.refl (by decide))
  have hs : Stretch (fun k ↦ 0 < k.frames.depth) .running (framing 2 [{}] none) framed .running
      (framing 8 [⟨[("x", .int 1)]⟩] (some ⟨[("y", .undefined)]⟩)) :=
    .next (by decide) (by cbv) (.next (by decide) (by cbv) (.next (by decide) (by cbv)
      (.next (by decide) (by cbv) (.next (by decide) (by cbv) (.next (by decide) (by cbv)
        (.refl (by decide)))))))
  have hr : (framing 8 [⟨[("x", .int 1)]⟩] (some ⟨[("y", .undefined)]⟩)).advance =
      (framing 9 [] (some ⟨[("x", .int 1)]⟩), none) := by cbv
  obtain ⟨f, hf, -, -, ht, -⟩ :=
    local_frames_encapsulated.2 _ _ _ _ _ _ hi rfl hp hs hr (Nat.le_refl 0)
  cases hf
  exact ⟨hm, hp, hs, by cbv, ht, hn, local_frames_encapsulated.1 _ _ _ _ _ _ hn⟩

end Machine

end ThreeAddress

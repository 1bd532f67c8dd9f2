import ThreeAddress.Instruction

namespace ThreeAddress

structure Program where
  instructions : List Instruction
  sorted : instructions.Pairwise fun i j ↦ i.order ≤ j.order

namespace Program

def precedes (i j : Instruction) : Bool := i.order ≤ j.order

/-- Sorts by order; instructions of the same order stay in sequence. -/
def ofList (l : List Instruction) : Program where
  instructions := l.mergeSort precedes
  sorted := by
    have ht (i j k : Instruction) (hij : precedes i j) (hjk : precedes j k) : precedes i k := by
      simp only [precedes, decide_eq_true_eq] at *
      omega
    have hl (i j : Instruction) : (precedes i j || precedes j i) = true := by
      simp only [precedes, Bool.or_eq_true, decide_eq_true_eq]
      omega
    simpa only [precedes, decide_eq_true_eq] using List.pairwise_mergeSort ht hl l

theorem mem_ofList {i : Instruction} {l : List Instruction} :
    i ∈ (ofList l).instructions ↔ i ∈ l := by
  simp only [ofList, List.mem_mergeSort]

def empty : Program := ofList []

end Program

end ThreeAddress

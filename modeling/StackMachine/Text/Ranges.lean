/-!
# Ranges of code points

A property of characters is kept as the list of its runs: the first and last code point of each.

* `covers_iff`: a code point is covered if it lies in one of the runs.
-/

namespace StackMachine.Text

/-- Whether a code point lies in one of several runs. -/
def covers (ranges : List (Nat × Nat)) (code : Nat) : Bool :=
  ranges.any fun (first, last) => first ≤ code && code ≤ last

/-- Whether no run is empty, and each ends before the next one starts. -/
def isAscending : List (Nat × Nat) → Bool
  | [] => true
  | [run] => run.1 ≤ run.2
  | run :: next :: rest => run.1 ≤ run.2 && run.2 < next.1 && isAscending (next :: rest)

theorem covers_iff {ranges : List (Nat × Nat)} {code : Nat} :
    covers ranges code = true ↔ ∃ run ∈ ranges, run.1 ≤ code ∧ code ≤ run.2 := by
  simp [covers]

end StackMachine.Text

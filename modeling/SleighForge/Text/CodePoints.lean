/-!
# Sets of code points

A set of code points is a list of inclusive ranges. The character classes of this library are
given by such lists, in ascending order.
-/

namespace SleighForge.Text

/-- An inclusive range of code points. -/
abbrev CodeRange := Nat × Nat

/-- Membership of a code point in a list of ranges. -/
def within (ranges : List CodeRange) (code : Nat) : Bool :=
  ranges.any fun r => r.1 ≤ code && code ≤ r.2

/-- A code point is within ranges if it is in one of them. -/
theorem within_eq_true_iff {ranges : List CodeRange} {code : Nat} :
    within ranges code = true ↔ ∃ r ∈ ranges, r.1 ≤ code ∧ code ≤ r.2 := by
  simp [within]

end SleighForge.Text

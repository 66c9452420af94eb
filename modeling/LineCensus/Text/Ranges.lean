/-! Sets of code points as sorted lists of closed intervals. -/
namespace LineCensus.Text

abbrev Ranges := List (Nat × Nat)

/-- Membership in a sorted list of intervals; the search ends at the first interval above `n`. -/
def Ranges.contains (n : Nat) : Ranges → Bool
  | [] => false
  | (lo, hi) :: rest => if n < lo then false else n ≤ hi || contains n rest

end LineCensus.Text

/-! # Sets of characters as ranges

A set of code points is a list of closed ranges in increasing order, so that a look-up may stop at
the first range that begins beyond the code point.
-/

namespace RecordLang.Text

/-- Whether `n` lies in one of the closed ranges, which are listed in increasing order. -/
def inRanges (n : Nat) : List (Nat × Nat) → Bool
  | [] => false
  | (low, high) :: rest =>
    if n < low then false else if n ≤ high then true else inRanges n rest

end RecordLang.Text

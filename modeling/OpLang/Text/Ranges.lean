/-! # Ascending ranges of code points

A character class is given by a list of inclusive ranges in ascending order, so a search may stop at
the first range that starts too late.
-/

namespace OpLang.Text

/-- Membership in an ascending list of inclusive ranges. -/
def inRanges : List (Nat × Nat) → Nat → Bool
  | [], _ => false
  | (first, last) :: rest, code =>
    if code < first then false else if code ≤ last then true else inRanges rest code

end OpLang.Text

namespace Zmtp

/-- Closed ranges of code points, first and last. They ascend and do not overlap. -/
abbrev CodeRanges := List (Nat × Nat)

namespace CodeRanges

/-- Whether a range holds the code point, looked up no further than the first range above it. -/
def covers : CodeRanges → Nat → Bool
  | [], _ => false
  | (first, last) :: rest, n =>
    if n < first then false else if n ≤ last then true else covers rest n

end CodeRanges

end Zmtp

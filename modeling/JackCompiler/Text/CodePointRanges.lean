/-!
# Ranges of code points

A property of characters is tabulated as ascending ranges of code points.

## Main definitions

* `CodePointRanges` — a table of ranges
* `CodePointRanges.contains`, `CodePointRanges.ascending` — membership, and the order of a table
-/

namespace JackCompiler

/-- Ranges of code points. Both ends of a range belong to it. -/
abbrev CodePointRanges := List (Nat × Nat)

namespace CodePointRanges

/-- Whether a character is in one of the ranges. -/
def contains (ranges : CodePointRanges) (c : Char) : Bool :=
  ranges.any fun (first, last) => first ≤ c.toNat && c.toNat ≤ last

/-- No range is empty, and each ends before the next one begins. -/
def ascending : CodePointRanges → Bool
  | [] => true
  | [(first, last)] => first ≤ last
  | (first, last) :: (next, nextLast) :: ranges =>
    first ≤ last && last < next && ascending ((next, nextLast) :: ranges)

end CodePointRanges

end JackCompiler

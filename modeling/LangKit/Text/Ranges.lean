/-!
# Sets of code points given by ranges

A character class of the Unicode standard is a finite union of closed ranges of code points. The
tables of the classes are in `Text.Word`, `Text.Printable` and `Text.Digit`, the longer ones by the
lengths of the ranges and of the gaps between them (`rangesFrom`); this module says what it means to
be in such a table.
-/

namespace LangKit.Text

/-- The closed ranges of code points from one on, given by lengths: those of the gaps, each with
that of the range behind it. -/
def rangesFrom (code : Nat) : List Nat → List (Nat × Nat)
  | gap :: length :: rest =>
    (code + gap, code + gap + length - 1) :: rangesFrom (code + gap + length) rest
  | _ => []

def inRanges (ranges : List (Nat × Nat)) (code : Nat) : Bool :=
  ranges.any fun r => r.1 ≤ code && code ≤ r.2

end LangKit.Text

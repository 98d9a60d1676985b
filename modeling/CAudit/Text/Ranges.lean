/-! Sets of characters given by ranges of code points. -/
namespace CAudit.Text

/-- Whether a code point lies in one of the ranges, ends included. -/
def inRanges (table : List (Nat × Nat)) (n : Nat) : Bool :=
  table.any fun r => r.1 ≤ n && n ≤ r.2

end CAudit.Text

/-!
# Flags

The flags register, laid out as `00000LGE`. It is zero until the first comparison; after one,
exactly the flag of its outcome is set.
-/

namespace Ls8

structure Flags where
  less : Bool := false
  greater : Bool := false
  equal : Bool := false
  deriving DecidableEq, Repr

namespace Flags

def clear : Flags := {}

/-- The outcome of comparing two bytes as unsigned numbers. -/
def ofComparison (left right : UInt8) : Flags where
  less := decide (left < right)
  greater := decide (right < left)
  equal := decide (left = right)

/-- The outcome of a comparison in terms of the numbers that the bytes stand for. -/
theorem ofComparison_eq (left right : UInt8) : ofComparison left right =
    { less := decide (left.toNat < right.toNat)
      greater := decide (right.toNat < left.toNat)
      equal := decide (left.toNat = right.toNat) } := by
  simp only [ofComparison, UInt8.lt_iff_toNat_lt, UInt8.toNat_inj]

/-- The flags as the bits `00000LGE`. -/
def bits (flags : Flags) : UInt8 :=
  (if flags.less then 4 else 0) + (if flags.greater then 2 else 0) + (if flags.equal then 1 else 0)

end Flags

end Ls8

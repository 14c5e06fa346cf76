/-!
Real numbers as IEEE-754 binary64 bit patterns. The bits are kept whatever they are; comparison
treats a NaN as unordered and the two zeros as equal. A finite number is its significand times a
power of two.
-/
namespace TrackedValues

structure Binary64 where
  bits : UInt64
  deriving DecidableEq, Repr

namespace Binary64

def signWeight : Nat := 0x8000000000000000

/-- The weight of the lowest exponent bit, which is also that of the hidden significand bit. -/
def binade : Nat := 0x10000000000000

def isNegative (x : Binary64) : Bool := decide (signWeight ≤ x.bits.toNat)

def magnitude (x : Binary64) : Nat := x.bits.toNat % signWeight

def infinityMagnitude : Nat := 2047 * binade

def isNaN (x : Binary64) : Bool := decide (infinityMagnitude < x.magnitude)

def isInfinite (x : Binary64) : Bool := decide (x.magnitude = infinityMagnitude)

def isZero (x : Binary64) : Bool := decide (x.magnitude = 0)

def key (x : Binary64) : Int := if x.isNegative then -(x.magnitude : Int) else x.magnitude

def equals (x y : Binary64) : Bool := !x.isNaN && !y.isNaN && decide (x.key = y.key)

def order? (x y : Binary64) : Option Ordering :=
  if x.isNaN || y.isNaN then none else some (compare x.key y.key)

/-- The biased exponent, raised to one for subnormal numbers, which share the least binade. -/
def biased (x : Binary64) : Nat := max (x.magnitude / binade) 1

def significand (x : Binary64) : Nat :=
  if x.magnitude < binade then x.magnitude else x.magnitude % binade + binade

/-- A finite number is its significand times two to this exponent. -/
def exponent (x : Binary64) : Int := x.biased - 1075

def atBinadeStart (x : Binary64) : Bool :=
  decide (x.significand = binade) && decide (1 < x.biased)

end Binary64
end TrackedValues

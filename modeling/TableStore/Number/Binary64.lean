/-!
# Binary floating point numbers of 64 bits

A number is its bit pattern, so that every pattern is kept, those of NaNs and of the negative zero
included. The low 63 bits are the *magnitude code*: codes are ordered as the magnitudes they
stand for, the next code is the next larger magnitude, and a finite code stands for a whole
number of smallest units, `2 ^ (-1074)`. Rounding a ratio to the nearest magnitude is therefore
a computation on natural numbers.
-/

-- Powers are those of the core library, whatever is imported beside it.
attribute [local instance (1100)] instPowNat

namespace TableStore

/-- A 64-bit floating point number, as its bits. -/
structure Binary64 where
  bits : UInt64
  deriving DecidableEq, Repr

namespace Binary64

/-! ## Parts -/

/-- Whether the sign bit is set. -/
def isNegative (x : Binary64) : Bool :=
  decide (2 ^ (63 : Nat) ≤ x.bits.toNat)

/-- The bits below the sign. -/
def magnitudeCode (x : Binary64) : Nat :=
  x.bits.toNat % 2 ^ (63 : Nat)

/-- The code of infinity. Finite magnitudes have smaller codes and NaNs larger ones. -/
def infinityCode : Nat :=
  2047 * 2 ^ (52 : Nat)

/-- Whether the number is not a NaN and not infinite. -/
def isFinite (x : Binary64) : Bool :=
  decide (x.magnitudeCode < infinityCode)

/-- Whether the pattern is a NaN. -/
def isNaN (x : Binary64) : Bool :=
  decide (infinityCode < x.magnitudeCode)

/-- The number with a given sign and magnitude code. -/
def ofParts (negative : Bool) (code : Nat) : Binary64 :=
  ⟨UInt64.ofNat ((if negative then 2 ^ (63 : Nat) else 0) + code)⟩

/-- The magnitude of a finite code in smallest units. -/
def units (code : Nat) : Nat :=
  if code < 2 ^ (52 : Nat) then code
  else (2 ^ (52 : Nat) + code % 2 ^ (52 : Nat)) * 2 ^ (code / 2 ^ (52 : Nat) - 1)

/-! ## Order -/

/-- A number whose order is that of the values, both zeros being zero. A NaN has none. -/
def orderKey? (x : Binary64) : Option Int :=
  if x.isNaN then none
  else if x.isNegative then some (-(x.magnitudeCode : Int))
  else some x.magnitudeCode

/-- The order of two numbers, unless one is a NaN. -/
def compare? (x y : Binary64) : Option Ordering :=
  match x.orderKey?, y.orderKey? with
  | some a, some b => some (compare a b)
  | _, _ => none

/-! ## Rounding -/

/-- The code of the magnitude nearest to `num / den` smallest units. Half way between two, the
even code is taken. Ratios too large to be finite get codes from that of infinity on. -/
def nearestCode (num den : Nat) : Nat :=
  let whole := num / den
  let shift := whole.log2 - 52
  let code := shift * 2 ^ (52 : Nat) + whole / 2 ^ shift
  let step := 2 ^ shift * den
  let excess := num - whole / 2 ^ shift * step
  match compare (2 * excess) step with
  | .lt => code
  | .eq => code + code % 2
  | .gt => code + 1

/-- The number nearest to an integer. -/
def ofInt (n : Int) : Binary64 :=
  ofParts (decide (n < 0)) (nearestCode (n.natAbs * 2 ^ (1074 : Nat)) 1)

end Binary64

end TableStore

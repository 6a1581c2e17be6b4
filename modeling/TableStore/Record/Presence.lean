import TableStore.Bytes

/-!
# Presence bitmaps

A record says by one bit per column whether it has a value for that column. Eight columns share a
byte, the first of them being its lowest bit, and the bits past the last column are clear.
-/

namespace TableStore.Presence

/-! ## Bits of a number -/

/-- The number whose bits are given, lowest first. -/
def toNat : List Bool → Nat
  | [] => 0
  | bit :: rest => bit.toNat + 2 * toNat rest

/-- The `count` lowest bits of a number, lowest first. -/
def ofNat : (count n : Nat) → List Bool
  | 0, _ => []
  | count + 1, n => decide (n % 2 = 1) :: ofNat count (n / 2)

/-! ## Bits of a bitmap -/

/-- The number of bytes that hold so many bits. -/
def byteCount (count : Nat) : Nat :=
  (count + 7) / 8

/-- The bitmap with the given bits. -/
def ofBits (bits : List Bool) : Bytes :=
  if bits.isEmpty then []
  else UInt8.ofNat (toNat (bits.take 8)) :: ofBits (bits.drop 8)
  termination_by bits.length
  decreasing_by
    next h =>
      have : bits.length ≠ 0 := by simpa using h
      simp only [List.length_drop]
      omega

/-- All bits of a bitmap. -/
def bits (bitmap : Bytes) : List Bool :=
  bitmap.flatMap fun b => ofNat 8 b.toNat

/-- Whether a bit is set. Bits past the end of the bitmap are clear. -/
def isSet (bitmap : Bytes) (position : Nat) : Bool :=
  (bits bitmap).getD position false

/-- The first bit set past the first `count` bits, if any. -/
def stray? (bitmap : Bytes) (count : Nat) : Option Nat :=
  (((bits bitmap).drop count).findIdx? id).map (count + ·)

end TableStore.Presence

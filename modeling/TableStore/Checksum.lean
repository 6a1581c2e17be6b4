import TableStore.Bytes

/-!
# The CRC-32 checksum

The reflected cyclic redundancy check of 32 bits with the usual polynomial: the remainder starts
with all bits set, each byte is added to its low end and shifted through bit by bit, and the
result is inverted.
-/

namespace TableStore.Checksum

/-- The polynomial, the coefficient of the highest power in the lowest bit. -/
def polynomial : UInt32 := 0xEDB88320

/-- Moves the remainder on by one bit. -/
def shift (remainder : UInt32) : UInt32 :=
  if remainder &&& 1 = 1 then (remainder >>> 1) ^^^ polynomial else remainder >>> 1

/-- Moves the remainder on by eight bits. -/
def shiftByte (remainder : UInt32) : UInt32 :=
  shift (shift (shift (shift (shift (shift (shift (shift remainder)))))))

/-- Takes one byte into the remainder. -/
def update (remainder : UInt32) (b : UInt8) : UInt32 :=
  shiftByte (remainder ^^^ b.toUInt32)

/-- The checksum of a byte string. -/
def crc32 (bytes : Bytes) : UInt32 :=
  bytes.foldl update 0xFFFFFFFF ^^^ 0xFFFFFFFF

/-- The usual check value: the checksum of the nine digits from 1 to 9. -/
example : crc32 [49, 50, 51, 52, 53, 54, 55, 56, 57] = 0xCBF43926 := by decide +kernel

end TableStore.Checksum

import TableStore.Bytes

/-!
# Frames

A frame is a body preceded by the number of its bytes in four bytes. Records are frames, and a log
is one frame after the other.
-/

-- Powers are those of the core library, whatever is imported beside it.
attribute [local instance (1100)] instPowNat

namespace TableStore.Frame

/-- The length of the number in front of a body. -/
def width : Nat := 4

/-- The largest length of a body. -/
def bodyLimit : Nat := 2 ^ (32 : Nat) - 1

/-- A body as a frame. -/
def ofBody (body : Bytes) : Bytes :=
  LittleEndian.encode width body.length ++ body

/-- The frame at the beginning of a byte string and the bytes behind it, unless the string ends
before it is complete. -/
def split? (bytes : Bytes) : Option (Bytes × Bytes) :=
  match Bytes.split? width bytes with
  | none => none
  | some (lead, rest) =>
    match Bytes.split? (LittleEndian.decode lead) rest with
    | none => none
    | some (body, rest) => some (lead ++ body, rest)

theorem eq_append_of_split? {bytes frame rest : Bytes}
    (h : split? bytes = some (frame, rest)) : bytes = frame ++ rest := by
  unfold split? at h
  split at h
  · cases h
  · next hlead =>
    split at h
    · cases h
    · next hbody =>
      cases h
      rw [(Bytes.split?_eq_some_iff.mp hlead).1, (Bytes.split?_eq_some_iff.mp hbody).1,
        List.append_assoc]

theorem width_le_length_of_split? {bytes frame rest : Bytes}
    (h : split? bytes = some (frame, rest)) : width ≤ frame.length := by
  unfold split? at h
  split at h
  · cases h
  · next hlead =>
    have := (Bytes.split?_eq_some_iff.mp hlead).2
    split at h
    · cases h
    · cases h
      rw [List.length_append]
      omega

theorem length_rest_lt_of_split? {bytes frame rest : Bytes}
    (h : split? bytes = some (frame, rest)) : rest.length < bytes.length := by
  have hwidth : 4 ≤ frame.length := width_le_length_of_split? h
  rw [eq_append_of_split? h, List.length_append]
  omega

/-- The number and the length together of the complete frames at the beginning of a byte string,
added to those counted before. -/
def tallyFrom (count length : Nat) (bytes : Bytes) : Nat × Nat :=
  match _h : split? bytes with
  | none => (count, length)
  | some (frame, rest) => tallyFrom (count + 1) (length + frame.length) rest
  termination_by bytes.length
  decreasing_by exact length_rest_lt_of_split? _h

/-- The number and the length together of the complete frames at the beginning of a byte string. -/
def tally (bytes : Bytes) : Nat × Nat :=
  tallyFrom 0 0 bytes

end TableStore.Frame

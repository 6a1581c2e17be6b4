import TableStore.Record.Field

/-!
# Reading fields back

A field is read off the front of the bytes it was written to, whatever follows it: its payload can
be skipped without looking into it, and spells the value that was written, every integer, every
bit pattern of a floating point number and every text included.
-/

namespace TableStore.Field

theorem takeBytes_append (column : String) (first rest : Bytes) :
    takeBytes first.length column (first ++ rest) = .ok (first, rest) := by
  rw [takeBytes, Bytes.split?_append]

theorem encode_text_eq_ok_iff {text : String} {field : Bytes} :
    encode (.text text) = .ok field ↔
      text.utf8ByteSize ≤ lengthLimit ∧
        field = LittleEndian.encode 4 text.utf8ByteSize ++ Utf8.encode text := by
  by_cases hlength : lengthLimit < text.utf8ByteSize
  · simp [encode, hlength, Nat.not_le.mpr hlength]
  · simp [encode, hlength, Nat.not_lt.mp hlength, payload, eq_comm]

/-! ## The payload -/

theorem take_text {text : String} (h : text.utf8ByteSize ≤ lengthLimit) (column : String)
    (rest : Bytes) :
    take .text column
        (LittleEndian.encode 4 text.utf8ByteSize ++ Utf8.encode text ++ rest) =
      .ok (Utf8.encode text, rest) := by
  have hlead : takeBytes 4 column
      (LittleEndian.encode 4 text.utf8ByteSize ++ (Utf8.encode text ++ rest)) =
        .ok (LittleEndian.encode 4 text.utf8ByteSize, Utf8.encode text ++ rest) := by
    have hsplit := takeBytes_append column (LittleEndian.encode 4 text.utf8ByteSize)
      (Utf8.encode text ++ rest)
    rwa [LittleEndian.length_encode] at hsplit
  have hlimit : lengthLimit < 256 ^ 4 := by decide
  have hlength : LittleEndian.decode (LittleEndian.encode 4 text.utf8ByteSize) =
      (Utf8.encode text).length := by
    rw [LittleEndian.decode_encode (by omega), Utf8.length_encode]
  rw [take, List.append_assoc, hlead]
  dsimp only
  rw [hlength, Bytes.split?_append]

/-- The payload of a written field is taken off without looking into it. -/
theorem take_encode {value : Value} {field : Bytes} (h : encode value = .ok field)
    (column : String) (rest : Bytes) :
    take value.type column (field ++ rest) = .ok (payload value, rest) := by
  cases value with
  | integer n =>
    cases h
    have hsplit := takeBytes_append column (payload (.integer n)) rest
    rwa [payload, LittleEndian.length_encode] at hsplit
  | float x =>
    cases h
    have hsplit := takeBytes_append column (payload (.float x)) rest
    rwa [payload, LittleEndian.length_encode] at hsplit
  | boolean b =>
    cases h
    exact takeBytes_append column [if b then 1 else 0] rest
  | text t =>
    obtain ⟨hlimit, rfl⟩ := encode_text_eq_ok_iff.mp h
    exact take_text hlimit column rest

/-! ## The value -/

theorem decode_encode_word (word : UInt64) :
    UInt64.ofNat (LittleEndian.decode (LittleEndian.encode 8 word.toNat)) = word := by
  have hfits : word.toNat < 256 ^ 8 := word.toNat_lt
  rw [LittleEndian.decode_encode hfits, UInt64.ofNat_toNat]

/-- A payload spells the value it was made of, bit for bit. -/
theorem ofPayload_payload (value : Value) (column : String) :
    ofPayload value.type column (payload value) = .ok value := by
  cases value with
  | integer n =>
    rw [Value.type, payload, ofPayload, decode_encode_word, Int64.toInt64_toUInt64]
  | float x => rw [Value.type, payload, ofPayload, decode_encode_word]
  | boolean b => cases b <;> rfl
  | text t =>
    rw [Value.type, payload, ofPayload, Utf8.decode_encode]

/-- **A written field reads back as its value**, whatever follows it. -/
theorem read_encode {value : Value} {field : Bytes} (h : encode value = .ok field)
    (column : String) (rest : Bytes) :
    read value.type column (field ++ rest) = .ok (value, rest) := by
  rw [read, take_encode h]
  dsimp only
  rw [ofPayload_payload]

end TableStore.Field

import TableStore.Record.Presence

/-!
# Reading a presence bitmap back

A bitmap written for a row of bits reads as these bits followed by clear ones up to the end of its
last byte. So every bit is found at its position, whichever byte it falls into, and nothing is set
past the last one.
-/

-- Powers are those of the core library, whatever is imported beside it.
attribute [local instance (1100)] instPowNat

namespace TableStore.Presence

/-! ## Bits of a number -/

theorem toNat_lt (bits : List Bool) : toNat bits < 2 ^ bits.length := by
  induction bits with
  | nil => simp [toNat]
  | cons bit rest ih =>
    have hbit : bit.toNat ≤ 1 := Bool.toNat_le bit
    simp only [toNat, List.length_cons, Nat.pow_succ]
    omega

@[simp]
theorem length_ofNat (count n : Nat) : (ofNat count n).length = count := by
  induction count generalizing n with
  | zero => rfl
  | succ count ih => simp [ofNat, ih]

theorem ofNat_zero (count : Nat) : ofNat count 0 = List.replicate count false := by
  induction count with
  | zero => rfl
  | succ count ih =>
    rw [ofNat, Nat.zero_div, ih, List.replicate_succ]
    rfl

/-- The lowest bits of the number made from a row of bits are that row, and clear bits follow. -/
theorem ofNat_toNat {count : Nat} {bits : List Bool} (h : bits.length ≤ count) :
    ofNat count (toNat bits) = bits ++ List.replicate (count - bits.length) false := by
  induction bits generalizing count with
  | nil => simp [toNat, ofNat_zero]
  | cons bit rest ih =>
    cases count with
    | zero => simp at h
    | succ count =>
      have hrest : rest.length ≤ count := by
        rw [List.length_cons] at h
        omega
      have hlow : decide ((bit.toNat + 2 * toNat rest) % 2 = 1) = bit := by
        cases bit <;> simp
      have hhigh : (bit.toNat + 2 * toNat rest) / 2 = toNat rest := by
        have hbit : bit.toNat ≤ 1 := Bool.toNat_le bit
        omega
      rw [toNat, ofNat, hlow, hhigh, ih hrest, List.length_cons, Nat.succ_sub_succ,
        List.cons_append]

/-! ## Bits of a bitmap -/

theorem ofBits_nil : ofBits [] = [] := by
  rw [ofBits]
  rfl

theorem ofBits_of_ne_nil {row : List Bool} (h : row ≠ []) :
    ofBits row = UInt8.ofNat (toNat (row.take 8)) :: ofBits (row.drop 8) := by
  rw [ofBits, if_neg]
  simpa using h

@[simp]
theorem length_ofBits (row : List Bool) : (ofBits row).length = byteCount row.length := by
  induction row using ofBits.induct with
  | case1 row hempty =>
    have hnil : row = [] := by simpa using hempty
    rw [hnil, ofBits_nil]
    rfl
  | case2 row hempty ih =>
    have hne : row ≠ [] := by simpa using hempty
    have hpositive : 0 < row.length := List.length_pos_iff.mpr hne
    rw [ofBits_of_ne_nil hne, List.length_cons, ih, List.length_drop]
    simp only [byteCount]
    omega

/-- A byte of a bitmap holds up to eight bits, and clear ones above them. -/
theorem ofNat_byte {row : List Bool} (h : row.length ≤ 8) :
    ofNat 8 (UInt8.ofNat (toNat row)).toNat = row ++ List.replicate (8 - row.length) false := by
  have hfits : toNat row < 256 :=
    Nat.lt_of_lt_of_le (toNat_lt row) (Nat.pow_le_pow_right (by decide : 0 < 2) h)
  rw [UInt8.toNat_ofNat', Nat.mod_eq_of_lt hfits, ofNat_toNat h]

/-- **A bitmap reads back as the bits it was made of, and clear bits up to its end.** -/
theorem bits_ofBits (row : List Bool) :
    bits (ofBits row) = row ++ List.replicate (8 * byteCount row.length - row.length) false := by
  induction row using ofBits.induct with
  | case1 row hempty =>
    have hnil : row = [] := by simpa using hempty
    rw [hnil, ofBits_nil]
    rfl
  | case2 row hempty ih =>
    have hne : row ≠ [] := by simpa using hempty
    have hpositive : 0 < row.length := List.length_pos_iff.mpr hne
    have hcons : bits (ofBits row) =
        ofNat 8 (UInt8.ofNat (toNat (row.take 8))).toNat ++ bits (ofBits (row.drop 8)) := by
      rw [ofBits_of_ne_nil hne, bits, List.flatMap_cons]
      rfl
    have hshort : (row.take 8).length ≤ 8 := List.length_take_le 8 row
    rw [hcons, ofNat_byte hshort, ih]
    -- Either the row ends within the first byte, or the first byte is full.
    by_cases hlast : row.length ≤ 8
    · have hdrop : row.drop 8 = [] := List.drop_eq_nil_of_le hlast
      have hbytes : byteCount row.length = 1 := by
        simp only [byteCount]
        omega
      rw [hdrop, List.take_of_length_le hlast, hbytes]
      simp [byteCount]
    · have htake : (row.take 8).length = 8 := List.length_take_of_le (by omega)
      have hpadding : 8 * byteCount (row.drop 8).length - (row.drop 8).length =
          8 * byteCount row.length - row.length := by
        simp only [byteCount, List.length_drop]
        omega
      rw [htake, hpadding, Nat.sub_self, List.replicate_zero, List.append_nil,
        ← List.append_assoc, List.take_append_drop]

theorem isSet_ofBits {row : List Bool} {position : Nat} (h : position < row.length) :
    isSet (ofBits row) position = row[position] := by
  rw [isSet, bits_ofBits, List.getD_eq_getElem?_getD, List.getElem?_append_left h,
    List.getElem?_eq_getElem h, Option.getD_some]

/-- Nothing is set past the last bit of a row. -/
theorem stray?_ofBits (row : List Bool) : stray? (ofBits row) row.length = none := by
  rw [stray?, bits_ofBits, List.drop_left, Option.map_eq_none_iff, List.findIdx?_eq_none_iff]
  intro bit hbit
  rw [List.eq_of_mem_replicate hbit]
  rfl

end TableStore.Presence

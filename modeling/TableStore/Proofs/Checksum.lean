import Mathlib.Logic.Function.Iterate
import TableStore.Checksum

/-!
# What the checksum tells apart

Moving the remainder on is linear in exclusive or, and one to one, for the polynomial has its
highest bit set where a shifted word has none. Bytes are taken in at the low end, so that up to four
of them in a row come to one word that is added before the remainder is moved on past them all.
Hence two byte strings that differ, but only within four bytes in a row, leave different remainders.
A string followed by its checksum leaves a remainder that does not depend on the string, so that
such a difference is also found if it reaches into the checksum.
-/

-- Powers are those of the core library, whatever is imported beside it.
attribute [local instance (1100)] instPowNat

namespace TableStore

/-- Whether two byte strings of one length differ, but only within so many bytes in a row. -/
structure Bytes.DiffersWithin (width : Nat) (bytes other : Bytes) : Prop where
  length_eq : other.length = bytes.length
  ne : other ≠ bytes
  same_outside : ∃ start, ∀ i, i < start ∨ start + width ≤ i → other[i]? = bytes[i]?

/-- Such byte strings have a window in which they differ, and are the same before and behind it. -/
theorem Bytes.DiffersWithin.exists_window {width : Nat} {bytes other : Bytes}
    (h : DiffersWithin width bytes other) :
    ∃ before window changed behind, bytes = before ++ window ++ behind ∧
      other = before ++ changed ++ behind ∧ changed.length = window.length ∧
      window.length ≤ width ∧ changed ≠ window := by
  obtain ⟨hlength, hne, start, hsame⟩ := h
  have hparts (xs : Bytes) :
      xs = xs.take start ++ (xs.drop start).take width ++ xs.drop (start + width) := by
    rw [List.append_assoc, ← List.drop_drop, List.take_append_drop, List.take_append_drop]
  have hbefore : other.take start = bytes.take start := by
    apply List.ext_getElem?
    intro i
    by_cases hi : i < start
    · rw [List.getElem?_take_of_lt hi, List.getElem?_take_of_lt hi, hsame i (.inl hi)]
    · rw [List.getElem?_take_eq_none (by omega), List.getElem?_take_eq_none (by omega)]
  have hbehind : other.drop (start + width) = bytes.drop (start + width) := by
    apply List.ext_getElem?
    intro i
    rw [List.getElem?_drop, List.getElem?_drop, hsame _ (.inr (Nat.le_add_right _ _))]
  refine ⟨bytes.take start, (bytes.drop start).take width, (other.drop start).take width,
    bytes.drop (start + width), hparts bytes, ?_, ?_, List.length_take_le _ _, ?_⟩
  · rw [← hbefore, ← hbehind]
    exact hparts other
  · rw [List.length_take, List.length_take, List.length_drop, List.length_drop, hlength]
  · intro heq
    apply hne
    rw [hparts other, hparts bytes, hbefore, heq, hbehind]

namespace Checksum

/-! ## Moving the remainder on -/

theorem and_one_eq_one_iff (word : UInt32) : word &&& 1 = 1 ↔ word.toNat % 2 = 1 := by
  rw [← UInt32.toNat_inj, UInt32.toNat_and]
  exact iff_of_eq (congrArg (· = 1) (Nat.and_one_is_mod _))

theorem shift_of_odd {word : UInt32} (h : word.toNat % 2 = 1) :
    shift word = (word >>> 1) ^^^ polynomial :=
  if_pos ((and_one_eq_one_iff word).mpr h)

theorem shift_of_even {word : UInt32} (h : word.toNat % 2 ≠ 1) : shift word = word >>> 1 :=
  if_neg fun heq ↦ h ((and_one_eq_one_iff word).mp heq)

theorem toNat_shiftRight_one (word : UInt32) : (word >>> 1).toNat = word.toNat / 2 := by
  rw [UInt32.toNat_shiftRight]
  exact Nat.shiftRight_eq_div_pow _ 1

theorem xor_xor_xor_cancel (a b p : UInt32) : (a ^^^ p) ^^^ (b ^^^ p) = a ^^^ b :=
  calc
    (a ^^^ p) ^^^ (b ^^^ p) = (a ^^^ b) ^^^ (p ^^^ p) := by ac_rfl
    _ = a ^^^ b := by rw [UInt32.xor_self, UInt32.xor_zero]

/-- Moving on is linear. -/
theorem shift_xor (a b : UInt32) : shift (a ^^^ b) = shift a ^^^ shift b := by
  have hodd : (a ^^^ b).toNat % 2 = 1 ↔ ¬ (a.toNat % 2 = 1 ↔ b.toNat % 2 = 1) := by
    rw [UInt32.toNat_xor, Nat.xor_mod_two_eq_one]
  by_cases ha : a.toNat % 2 = 1
  · by_cases hb : b.toNat % 2 = 1
    · rw [shift_of_even (by omega), shift_of_odd ha, shift_of_odd hb, UInt32.shiftRight_xor,
        xor_xor_xor_cancel]
    · rw [shift_of_odd (by omega), shift_of_odd ha, shift_of_even hb, UInt32.shiftRight_xor]
      ac_rfl
  · by_cases hb : b.toNat % 2 = 1
    · rw [shift_of_odd (by omega), shift_of_even ha, shift_of_odd hb, UInt32.shiftRight_xor]
      ac_rfl
    · rw [shift_of_even (by omega), shift_of_even ha, shift_of_even hb, UInt32.shiftRight_xor]

/-- Only nothing becomes nothing: if the polynomial has been added, it shows in the highest bit. -/
theorem eq_zero_of_shift_eq_zero {word : UInt32} (h : shift word = 0) : word = 0 := by
  have hhalf := toNat_shiftRight_one word
  have hlt := word.toNat_lt
  by_cases hodd : word.toNat % 2 = 1
  · rw [shift_of_odd hodd, UInt32.xor_eq_zero_iff] at h
    have hhigh : polynomial.toNat = 0xEDB88320 := rfl
    rw [h] at hhalf
    omega
  · rw [shift_of_even hodd] at h
    rw [h, UInt32.toNat_zero] at hhalf
    apply UInt32.toNat_inj.mp
    rw [UInt32.toNat_zero]
    omega

theorem shift_injective : Function.Injective shift := by
  intro a b h
  apply UInt32.xor_eq_zero_iff.mp
  apply eq_zero_of_shift_eq_zero
  rw [shift_xor, h, UInt32.xor_self]

/-- A bit that is clear is shifted out without a trace. -/
theorem shift_ofNat_two_mul {n : Nat} (h : n < 2 ^ (31 : Nat)) :
    shift (UInt32.ofNat (2 * n)) = UInt32.ofNat n := by
  have htwice : (UInt32.ofNat (2 * n)).toNat = 2 * n := by rw [UInt32.toNat_ofNat']; omega
  have hself : (UInt32.ofNat n).toNat = n := by rw [UInt32.toNat_ofNat']; omega
  rw [shift_of_even (by omega)]
  apply UInt32.toNat_inj.mp
  rw [toNat_shiftRight_one, htwice, hself]
  omega

theorem shiftByte_xor (a b : UInt32) : shiftByte (a ^^^ b) = shiftByte a ^^^ shiftByte b := by
  simp only [shiftByte, shift_xor]

theorem shiftByte_injective : Function.Injective shiftByte := by
  have hshifts : shiftByte = shift^[8] := rfl
  rw [hshifts]
  exact shift_injective.iterate 8

theorem shiftByte_ofNat {n : Nat} (h : n < 2 ^ (24 : Nat)) :
    shiftByte (UInt32.ofNat (256 * n)) = UInt32.ofNat n := by
  have htwice : 256 * n = 2 * (2 * (2 * (2 * (2 * (2 * (2 * (2 * n))))))) := by omega
  rw [shiftByte, htwice]
  iterate 8 rw [shift_ofNat_two_mul (by omega)]

/-! ## Up to four bytes in a row -/

/-- Bytes as a word, the first of them lowest. -/
def word (bytes : Bytes) : UInt32 :=
  UInt32.ofNat (LittleEndian.decode bytes)

theorem xor_mul_eq_add {b : Nat} (h : b < 256) (n : Nat) : b ^^^ (256 * n) = b + 256 * n := by
  have hlow : (b ^^^ (256 * n)) % 2 ^ 8 = b := by
    rw [Nat.xor_mod_two_pow, Nat.mul_mod_right, Nat.xor_zero, Nat.mod_eq_of_lt h]
  have hhigh : (b ^^^ (256 * n)) / 2 ^ 8 = n := by
    rw [Nat.xor_div_two_pow, Nat.mul_div_cancel_left _ (by decide), Nat.div_eq_of_lt h,
      Nat.zero_xor]
  omega

theorem word_cons (b : UInt8) (rest : Bytes) :
    word (b :: rest) = b.toUInt32 ^^^ UInt32.ofNat (256 * LittleEndian.decode rest) := by
  have hbyte : b.toNat < 2 ^ 32 := Nat.lt_trans b.toNat_lt (by decide)
  apply UInt32.toNat_inj.mp
  rw [word, LittleEndian.decode, ← xor_mul_eq_add b.toNat_lt, UInt32.toNat_xor, UInt32.toNat_ofNat',
    UInt32.toNat_ofNat', UInt8.toNat_toUInt32, Nat.xor_mod_two_pow, Nat.mod_eq_of_lt hbyte]

theorem decode_lt_of_length_le {bytes : Bytes} {width : Nat} (h : bytes.length ≤ width) :
    LittleEndian.decode bytes < 256 ^ width :=
  Nat.lt_of_lt_of_le (LittleEndian.decode_lt bytes) (Nat.pow_le_pow_right (by decide) h)

theorem toNat_word {bytes : Bytes} (h : bytes.length ≤ 4) :
    (word bytes).toNat = LittleEndian.decode bytes := by
  rw [word, UInt32.toNat_ofNat', Nat.mod_eq_of_lt (decode_lt_of_length_le h)]

theorem eq_of_word_eq {bytes other : Bytes} (hlength : other.length = bytes.length)
    (hshort : bytes.length ≤ 4) (h : word other = word bytes) : other = bytes := by
  have hdecode : LittleEndian.decode other = LittleEndian.decode bytes := by
    rw [← toNat_word (hlength ▸ hshort), h, toNat_word hshort]
  rw [← LittleEndian.encode_decode other, hdecode, hlength, LittleEndian.encode_decode]

/-- **Up to four bytes are taken in at once**: their word is added, and then the remainder is moved
on past all of them. -/
theorem foldl_update {bytes : Bytes} (h : bytes.length ≤ 4) (remainder : UInt32) :
    bytes.foldl update remainder = shiftByte^[bytes.length] (remainder ^^^ word bytes) := by
  induction bytes generalizing remainder with
  | nil => exact UInt32.xor_zero.symm
  | cons b rest ih =>
    have hshort : rest.length ≤ 3 := Nat.le_of_succ_le_succ h
    calc
      (b :: rest).foldl update remainder =
          shiftByte^[rest.length] (update remainder b ^^^ word rest) := ih (by omega) _
      _ = shiftByte^[rest.length] (shiftByte (remainder ^^^ word (b :: rest))) := by
        rw [update, word, ← shiftByte_ofNat (decode_lt_of_length_le hshort), ← shiftByte_xor,
          UInt32.xor_assoc, ← word_cons]
      _ = shiftByte^[(b :: rest).length] (remainder ^^^ word (b :: rest)) := rfl

/-- From one remainder different bytes lead to different ones, if there are no more than four. -/
theorem eq_of_foldl_update_eq {bytes other : Bytes} {remainder : UInt32}
    (hlength : other.length = bytes.length) (hshort : bytes.length ≤ 4)
    (h : other.foldl update remainder = bytes.foldl update remainder) : other = bytes := by
  rw [foldl_update hshort, foldl_update (hlength ▸ hshort), hlength] at h
  have hwords := shiftByte_injective.iterate _ h
  exact eq_of_word_eq hlength hshort ((UInt32.xor_right_inj _).mp hwords)

/-! ## Whole byte strings -/

/-- The same bytes lead different remainders to different ones. -/
theorem foldl_update_injective (bytes : Bytes) :
    Function.Injective fun remainder ↦ bytes.foldl update remainder := by
  induction bytes with
  | nil => exact fun _ _ h ↦ h
  | cons b rest ih =>
    have hupdate : Function.Injective fun remainder ↦ update remainder b :=
      fun _ _ h ↦ (UInt32.xor_left_inj _).mp (shiftByte_injective h)
    exact ih.comp hupdate

/-- **A difference within four bytes in a row shows in the remainder**, however long the strings are
and wherever it is. -/
theorem foldl_update_ne {bytes other : Bytes} (h : Bytes.DiffersWithin 4 bytes other)
    (remainder : UInt32) : other.foldl update remainder ≠ bytes.foldl update remainder := by
  obtain ⟨before, window, changed, behind, rfl, rfl, hlength, hshort, hne⟩ := h.exists_window
  intro heq
  rw [List.foldl_append, List.foldl_append, List.foldl_append, List.foldl_append] at heq
  exact hne (eq_of_foldl_update_eq hlength hshort (foldl_update_injective behind heq))

/-- The remainder that a byte string with its checksum behind it leaves. -/
def residue : UInt32 := 0xDEBB20E3

/-- **Four bytes are the checksum of those before them exactly if all together leave the
residue.** -/
theorem foldl_update_append_eq_residue_iff (bytes : Bytes) {stored : Bytes}
    (h : stored.length = 4) :
    (bytes ++ stored).foldl update 0xFFFFFFFF = residue ↔ word stored = crc32 bytes := by
  have hresidue : residue = shiftByte^[4] 0xFFFFFFFF := by decide +kernel
  rw [List.foldl_append, foldl_update (Nat.le_of_eq h), h, hresidue,
    (shiftByte_injective.iterate 4).eq_iff, crc32]
  generalize bytes.foldl update 0xFFFFFFFF = remainder
  constructor
  · intro hsum
    rw [← hsum, ← UInt32.xor_assoc, UInt32.xor_self, UInt32.zero_xor]
  · intro hword
    rw [hword, ← UInt32.xor_assoc, UInt32.xor_self, UInt32.zero_xor]

end Checksum

end TableStore

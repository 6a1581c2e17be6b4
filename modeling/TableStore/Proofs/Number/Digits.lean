import TableStore.Number.Digits

/-!
# Decimal digits written and read

A number's digits are found by taking the last one off, so that they are as many as powers of ten
fit, and the first of them is not zero. Zeros in front do not count, and zeros behind multiply by
powers of ten. Digits that have been written are read again as far as they go.
-/

-- Powers and the zero are those of the core library, whatever is imported beside it.
attribute [local instance (1100)] instPowNat
attribute [local instance (1100)] Zero.ofOfNat0

namespace TableStore

namespace Digit

/-- No digit is written as a character that stands for none. -/
theorem char_ne (d : Digit) {c : Char} (h : ofChar? c = none) : d.char ≠ c := by
  rintro rfl
  rw [ofChar?_char] at h
  cases h

end Digit

namespace Digits

/-! ## The digits of a number -/

theorem prepend_eq_append (n : Nat) (written : List Digit) :
    prepend n written = ofNat n ++ written := by
  unfold ofNat
  induction n using Nat.strongRecOn generalizing written with
  | ind n ih =>
    rw [prepend.eq_def n written, prepend.eq_def n []]
    split
    · rfl
    · next h =>
      rw [ih (n / 10) (by omega), ih (n / 10) (by omega) [_], List.append_assoc]
      rfl

theorem ofNat_of_lt {n : Nat} (h : n < 10) : ofNat n = [⟨n, h⟩] := by
  rw [ofNat, prepend, dif_pos h]

/-- The last digit comes off the end. -/
theorem ofNat_of_le {n : Nat} (h : 10 ≤ n) :
    ofNat n = ofNat (n / 10) ++ [⟨n % 10, Nat.mod_lt n (by decide)⟩] := by
  rw [ofNat, prepend, dif_neg (Nat.not_lt.mpr h), prepend_eq_append]

theorem ofNat_ne_nil (n : Nat) : ofNat n ≠ [] := by
  rcases Nat.lt_or_ge n 10 with h | h
  · rw [ofNat_of_lt h]
    exact List.cons_ne_nil _ _
  · rw [ofNat_of_le h]
    exact List.append_ne_nil_of_right_ne_nil _ (List.cons_ne_nil _ _)

/-- No number but zero is written with a zero in front. -/
theorem head_ofNat_ne_zero {n : Nat} (h : n ≠ 0) : (ofNat n).head (ofNat_ne_nil n) ≠ 0 := by
  induction n using Nat.strongRecOn with
  | ind n ih =>
    rcases Nat.lt_or_ge n 10 with hlt | hge
    · simp only [ofNat_of_lt hlt, List.head_cons]
      exact fun heq ↦ h (congrArg Fin.val heq)
    · simp only [ofNat_of_le hge, List.head_append_of_ne_nil (ofNat_ne_nil _)]
      exact ih (n / 10) (by omega) (by omega)

/-! ## How many digits there are -/

theorem count_of_lt {n : Nat} (h : n < 10) : count n = 1 := by
  rw [count, ofNat_of_lt h]
  rfl

theorem count_of_le {n : Nat} (h : 10 ≤ n) : count n = count (n / 10) + 1 := by
  rw [count, count, ofNat_of_le h, List.length_append]
  rfl

/-- Ten times a number has one more digit. -/
theorem count_mul_ten {n : Nat} (h : n ≠ 0) : count (n * 10) = count n + 1 := by
  rw [count_of_le (by omega), Nat.mul_div_cancel n (by decide)]

/-- A number below a power of ten has at most so many digits. -/
theorem count_le_of_lt {n k : Nat} (hk : 0 < k) (h : n < 10 ^ k) : count n ≤ k := by
  induction k generalizing n with
  | zero => cases hk
  | succ k ih =>
    rcases Nat.lt_or_ge n 10 with hlt | hge
    · rw [count_of_lt hlt]
      omega
    · have hpow : n / 10 < 10 ^ k := by
        rw [Nat.pow_succ] at h
        exact Nat.div_lt_of_lt_mul (by omega)
      have hpos : 0 < k := by
        rcases Nat.eq_zero_or_pos k with rfl | hpos
        · rw [Nat.pow_zero] at hpow
          omega
        · exact hpos
      rw [count_of_le hge]
      exact Nat.succ_le_succ (ih hpos hpow)

/-- A number from a power of ten on has more digits. -/
theorem lt_count_of_le {n k : Nat} (h : 10 ^ k ≤ n) : k < count n := by
  induction k generalizing n with
  | zero => exact List.length_pos_iff.mpr (ofNat_ne_nil n)
  | succ k ih =>
    rw [Nat.pow_succ] at h
    have hpos : 0 < 10 ^ k := Nat.pow_pos (by decide)
    rw [count_of_le (by omega)]
    exact Nat.succ_lt_succ (ih (by omega))

/-! ## The number of digits one after the other -/

theorem foldl_eq (n : Nat) (digits : List Digit) :
    digits.foldl (fun n d ↦ 10 * n + d.val) n = n * 10 ^ digits.length + toNat digits := by
  unfold toNat
  induction digits generalizing n with
  | nil => simp
  | cons d rest ih =>
    rw [List.foldl_cons, List.foldl_cons, ih, ih (10 * 0 + d.val), List.length_cons, Nat.pow_succ]
    simp only [Nat.add_mul, Nat.mul_zero, Nat.zero_add]
    rw [Nat.mul_comm 10 n, Nat.mul_assoc, Nat.mul_comm 10, Nat.add_assoc]

theorem toNat_append (digits others : List Digit) :
    toNat (digits ++ others) = toNat digits * 10 ^ others.length + toNat others := by
  rw [toNat, List.foldl_append, foldl_eq]
  rfl

@[simp]
theorem toNat_replicate_zero (count : Nat) : toNat (List.replicate count 0) = 0 := by
  induction count with
  | zero => rfl
  | succ count ih =>
    rw [List.replicate_succ, ← List.singleton_append, toNat_append, ih]
    simp [toNat]

/-- Zeros in front do not count. -/
theorem toNat_zeros_append (count : Nat) (digits : List Digit) :
    toNat (List.replicate count 0 ++ digits) = toNat digits := by
  rw [toNat_append, toNat_replicate_zero, Nat.zero_mul, Nat.zero_add]

/-- Zeros behind multiply by a power of ten. -/
theorem toNat_append_zeros (digits : List Digit) (count : Nat) :
    toNat (digits ++ List.replicate count 0) = toNat digits * 10 ^ count := by
  rw [toNat_append, toNat_replicate_zero, List.length_replicate, Nat.add_zero]

/-! ## Text -/

/-- Whether a text does not go on with a digit. -/
def Ends (text : List Char) : Prop :=
  ∀ c ∈ text.head?, Digit.ofChar? c = none

theorem takeFrom_of_ends {text : List Char} (h : Ends text) : takeFrom text = ([], text) := by
  cases text with
  | nil => rfl
  | cons c rest => rw [takeFrom, h c rfl]

/-- **Digits that have been written are read again**, if no further digit follows. -/
theorem takeFrom_chars_append (digits : List Digit) {rest : List Char} (h : Ends rest) :
    takeFrom (chars digits ++ rest) = (digits, rest) := by
  induction digits with
  | nil => exact takeFrom_of_ends h
  | cons d others ih =>
    rw [chars, List.map_cons, List.cons_append, takeFrom, Digit.ofChar?_char]
    dsimp only
    rw [← chars, ih]

end Digits

end TableStore

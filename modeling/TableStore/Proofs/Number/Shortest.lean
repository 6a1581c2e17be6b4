import TableStore.Proofs.Number.Digits
import TableStore.Proofs.Number.Nearest
import TableStore.Number.Decimal

/-!
# The shortest decimal number reads back

A decimal number is read by its value only, so that zeros may be moved between the coefficient and
the exponent. The exact expansion of a finite magnitude reads as this magnitude, and so does every
number that the search for a shorter one comes to.
-/

-- Powers are those of the core library, whatever is imported beside it.
attribute [local instance (1100)] instPowNat

namespace TableStore.Decimal

/-! ## Reading depends on the value -/

/-- The code of a decimal number, before it is told whether it is finite. -/
def roundedCode (d : Decimal) : Nat :=
  match d.exponent with
  | .ofNat e => Binary64.nearestCode (d.coefficient * 10 ^ e * 2 ^ (1074 : Nat)) 1
  | .negSucc e => Binary64.nearestCode (d.coefficient * 2 ^ (1074 : Nat)) (10 ^ (e + 1))

/-- The decimal exponent of the first digit, counted from one. -/
def scale (d : Decimal) : Int :=
  Digits.count d.coefficient + d.exponent

theorem nearestCode?_eq (d : Decimal) :
    d.nearestCode? =
      if d.coefficient = 0 then some 0
      else if d.scale < -330 then some 0
      else if 310 < d.scale then none
      else if d.roundedCode < Binary64.infinityCode then some d.roundedCode else none :=
  rfl

theorem nearestCode?_zero (exponent : Int) : nearestCode? ⟨0, exponent⟩ = some 0 := by
  rw [nearestCode?_eq, if_pos rfl]

/-- Only zero has no digits and reads as another number's code. -/
theorem coefficient_ne_zero {d : Decimal} {code : Nat} (h : d.nearestCode? = some code)
    (hcode : code ≠ 0) : d.coefficient ≠ 0 := by
  intro hzero
  rw [nearestCode?_eq, if_pos hzero] at h
  exact hcode (Option.some.inj h).symm

theorem lt_infinityCode {d : Decimal} {code : Nat} (h : d.nearestCode? = some code) :
    code < Binary64.infinityCode := by
  have hzero : 0 < Binary64.infinityCode := by decide
  rw [nearestCode?_eq] at h
  split at h
  · cases h
    exact hzero
  split at h
  · cases h
    exact hzero
  split at h
  · cases h
  split at h
  · next hlt =>
    cases h
    exact hlt
  · cases h

theorem roundedCode_of_nonneg (coefficient exponent : Nat) :
    roundedCode ⟨coefficient, .ofNat exponent⟩ =
      Binary64.nearestCode (coefficient * 10 ^ exponent * 2 ^ (1074 : Nat)) 1 :=
  rfl

theorem roundedCode_of_neg (coefficient : Nat) {exponent places : Nat}
    (h : exponent + 1 = places) :
    roundedCode ⟨coefficient, .negSucc exponent⟩ =
      Binary64.nearestCode (coefficient * 2 ^ (1074 : Nat)) (10 ^ places) := by
  subst h
  rfl

theorem roundedCode_mul_ten (coefficient : Nat) (exponent : Int) :
    roundedCode ⟨coefficient * 10, exponent⟩ = roundedCode ⟨coefficient, exponent + 1⟩ := by
  have hpow (e : Nat) : (10 : Nat) ^ (e + 1) = 10 * 10 ^ e := Nat.pow_succ'
  match exponent with
  | .ofNat e =>
    change _ = roundedCode ⟨coefficient, .ofNat (e + 1)⟩
    rw [roundedCode_of_nonneg, roundedCode_of_nonneg, hpow, Nat.mul_assoc coefficient]
  | .negSucc 0 =>
    change _ = roundedCode ⟨coefficient, .ofNat 0⟩
    rw [roundedCode_of_neg _ rfl, roundedCode_of_nonneg, hpow, Nat.pow_zero,
      Nat.mul_one coefficient, Nat.mul_comm coefficient, Nat.mul_assoc,
      Binary64.nearestCode_mul_mul (by decide)]
  | .negSucc (e + 1) =>
    change _ = roundedCode ⟨coefficient, .negSucc e⟩
    rw [roundedCode_of_neg _ rfl, roundedCode_of_neg _ rfl, hpow (e + 1), Nat.mul_comm coefficient,
      Nat.mul_assoc, Binary64.nearestCode_mul_mul (by decide)]

/-- A zero at the end may as well be written into the exponent. -/
theorem nearestCode?_mul_ten (coefficient : Nat) (exponent : Int) :
    nearestCode? ⟨coefficient * 10, exponent⟩ = nearestCode? ⟨coefficient, exponent + 1⟩ := by
  rcases Nat.eq_zero_or_pos coefficient with rfl | hpos
  · rw [Nat.zero_mul, nearestCode?_zero, nearestCode?_zero]
  · have hscale : scale ⟨coefficient * 10, exponent⟩ = scale ⟨coefficient, exponent + 1⟩ := by
      unfold scale
      dsimp only
      rw [Digits.count_mul_ten (by omega)]
      omega
    have hne : coefficient ≠ 0 := Nat.ne_of_gt hpos
    have hne' : coefficient * 10 ≠ 0 := by omega
    rw [nearestCode?_eq, nearestCode?_eq, hscale, roundedCode_mul_ten, if_neg hne, if_neg hne']

/-- **Zeros at the end may as well be written into the exponent.** -/
theorem nearestCode?_mul_pow (coefficient zeros : Nat) (exponent : Int) :
    nearestCode? ⟨coefficient * 10 ^ zeros, exponent⟩ =
      nearestCode? ⟨coefficient, exponent + zeros⟩ := by
  induction zeros generalizing exponent with
  | zero => rw [Nat.pow_zero, Nat.mul_one, Int.natCast_zero, Int.add_zero]
  | succ zeros ih =>
    rw [Nat.pow_succ, ← Nat.mul_assoc, nearestCode?_mul_ten, ih]
    congr 2
    omega

theorem nearestCode?_reduce (d : Decimal) : d.reduce.nearestCode? = d.nearestCode? := by
  fun_induction reduce d with
  | case1 d h ih =>
    have hdigits : d.coefficient / 10 * 10 = d.coefficient := by omega
    rw [ih, ← nearestCode?_mul_ten, hdigits]
  | case2 => rfl

/-! ## The expansions of a magnitude -/

/-- How large the coefficient of an exact expansion can be. -/
theorem scale_exact {code : Nat} (h : code < Binary64.infinityCode) (hcode : code ≠ 0) :
    -330 ≤ (exact code).scale ∧ (exact code).scale ≤ 310 := by
  have hlow : 743 < Digits.count (exact code).coefficient := by
    apply Digits.lt_count_of_le
    exact Nat.le_trans (by decide +kernel) (Nat.le_mul_of_pos_left _ (Binary64.units_pos hcode))
  have hhigh : Digits.count (exact code).coefficient ≤ 1384 := by
    apply Digits.count_le_of_lt (by decide)
    calc
      Binary64.units code * 5 ^ (1074 : Nat) < 2 ^ (2098 : Nat) * 5 ^ (1074 : Nat) :=
        Nat.mul_lt_mul_of_pos_right (Binary64.units_lt h) (Nat.pow_pos (by decide))
      _ ≤ 10 ^ (1384 : Nat) := by decide +kernel
  unfold scale
  constructor
  · change -330 ≤ (Digits.count (exact code).coefficient : Int) + -1074
    omega
  · change (Digits.count (exact code).coefficient : Int) + -1074 ≤ 310
    omega

theorem roundedCode_exact (code : Nat) : (exact code).roundedCode = code := by
  have hten (n : Nat) : (5 : Nat) ^ n * 2 ^ n = 10 ^ n := (Nat.mul_pow 5 2 n).symm
  have hpos (n : Nat) : 0 < (10 : Nat) ^ n := Nat.pow_pos (by decide)
  have hcancel (n : Nat) :
      Binary64.nearestCode (Binary64.units code * 10 ^ n) (10 ^ n) = code := by
    calc
      Binary64.nearestCode (Binary64.units code * 10 ^ n) (10 ^ n) =
          Binary64.nearestCode (10 ^ n * Binary64.units code) (10 ^ n * 1) := by
        rw [Nat.mul_comm, Nat.mul_one]
      _ = Binary64.nearestCode (Binary64.units code) 1 :=
        Binary64.nearestCode_mul_mul (hpos n) _ _
      _ = code := Binary64.nearestCode_units code
  have hexact : exact code = ⟨Binary64.units code * 5 ^ (1074 : Nat), .negSucc 1073⟩ := rfl
  have hplaces : 1073 + 1 = 1074 := rfl
  rw [hexact, roundedCode_of_neg _ hplaces, Nat.mul_assoc, hten 1074]
  exact hcancel 1074

/-- **All digits of a finite magnitude read as this magnitude.** -/
theorem nearestCode?_exact {code : Nat} (h : code < Binary64.infinityCode) :
    (exact code).nearestCode? = some code := by
  rcases Nat.eq_zero_or_pos code with rfl | hpos
  · decide +kernel
  · have hcode : code ≠ 0 := Nat.ne_of_gt hpos
    obtain ⟨hlow, hhigh⟩ := scale_exact h hcode
    have hfive (n : Nat) : 0 < (5 : Nat) ^ n := Nat.pow_pos (by decide)
    have hcoefficient : (exact code).coefficient ≠ 0 :=
      Nat.ne_of_gt (Nat.mul_pos (Binary64.units_pos hcode) (hfive 1074))
    rw [nearestCode?_eq, roundedCode_exact, if_neg hcoefficient, if_neg (Int.not_lt.mpr hlow),
      if_neg (Int.not_lt.mpr hhigh), if_pos h]

theorem nearestCode?_of_cutReading? {tie : Tie} {code dropped : Nat} {d found : Decimal}
    (h : cutReading? tie code d dropped = some found) : found.nearestCode? = some code := by
  unfold cutReading? at h
  dsimp only at h
  split at h
  · cases h
  · next hbelow _ =>
    cases h
    exact of_decide_eq_true hbelow
  · next habove =>
    cases h
    exact of_decide_eq_true habove
  · next hbelow habove =>
    have hbelow := of_decide_eq_true hbelow
    have habove := of_decide_eq_true habove
    split at h
    · cases h
      exact hbelow
    · cases h
      exact habove
    · split at h
      · cases h
        split
        · exact hbelow
        · exact habove
      · cases h
        exact habove

/-- **The shortest decimal number of a finite magnitude reads as this magnitude.** -/
theorem nearestCode?_shortest (tie : Tie) {code : Nat} (h : code < Binary64.infinityCode) :
    (shortest tie code).nearestCode? = some code := by
  unfold shortest
  dsimp only
  rw [nearestCode?_reduce]
  cases hfound : (List.range 17).findSome? fun i ↦
      cutReading? tie code (exact code) (Digits.count (exact code).coefficient - (i + 1)) with
  | none => exact nearestCode?_exact h
  | some found =>
    obtain ⟨i, _, hi⟩ := List.exists_of_findSome?_eq_some hfound
    exact nearestCode?_of_cutReading? hi

end TableStore.Decimal

import TableStore.Number.FloatStyle
import TableStore.Proofs.Number.Shortest

/-!
# Number literals written and read

The literal of a finite floating point number has its value, in whichever style it is written: the
point, the zeros in front and behind and the exponent only say where the digits stand. The text of
a literal without superfluous zeros is read as this literal as long as what follows does not go on
with the number.
-/

-- Powers and the zero are those of the core library, whatever is imported beside it.
attribute [local instance (1100)] instPowNat
attribute [local instance (1100)] Zero.ofOfNat0

namespace TableStore

/-! ## Parts of a floating point number -/

namespace Binary64

/-- A number is its sign and its magnitude. -/
theorem ofParts_parts (x : Binary64) : ofParts x.isNegative x.magnitudeCode = x := by
  have hlt : x.bits.toNat < 2 ^ (64 : Nat) := x.bits.toNat_lt
  have hbits : (if x.isNegative then 2 ^ (63 : Nat) else 0) + x.magnitudeCode = x.bits.toNat := by
    unfold isNegative magnitudeCode
    split <;> simp only [decide_eq_true_eq] at * <;> omega
  cases x with
  | mk bits =>
    rw [ofParts, hbits, UInt64.ofNat_toNat]

theorem magnitudeCode_ofParts (negative : Bool) {code : Nat} (h : code < 2 ^ (63 : Nat)) :
    (ofParts negative code).magnitudeCode = code := by
  unfold magnitudeCode ofParts
  rw [UInt64.toNat_ofNat']
  split <;> omega

/-- A magnitude below infinity gives a finite number. -/
theorem isFinite_ofParts (negative : Bool) {code : Nat} (h : code < infinityCode) :
    (ofParts negative code).isFinite = true := by
  have hcode : code < 2 ^ (63 : Nat) := Nat.lt_trans h (by decide)
  rw [isFinite, magnitudeCode_ofParts negative hcode]
  exact decide_eq_true h

/-- An integer of no more than 64 bits gives a finite number. -/
theorem isFinite_ofInt {n : Int} (h : n.natAbs ≤ 2 ^ (63 : Nat)) : (ofInt n).isFinite = true :=
  isFinite_ofParts _ (nearestCode_whole_lt h)

theorem isNaN_of_isFinite {x : Binary64} (h : x.isFinite = true) : x.isNaN = false := by
  simp only [isFinite, isNaN, decide_eq_true_eq, decide_eq_false_iff_not] at h ⊢
  exact Nat.not_lt.mpr (Nat.le_of_lt h)

/-- Two numbers are in an order unless one of them is a NaN. -/
theorem compare?_eq_none_iff {x y : Binary64} :
    x.compare? y = none ↔ x.isNaN = true ∨ y.isNaN = true := by
  have hkey (z : Binary64) : z.orderKey? = none ↔ z.isNaN = true := by
    unfold orderKey?
    split
    · next hnan => exact iff_of_true rfl hnan
    · next hnan => split <;> exact iff_of_false nofun hnan
  rw [← hkey x, ← hkey y, compare?]
  cases x.orderKey? <;> cases y.orderKey? <;> simp

end Binary64

namespace Digits

/-! ## Superfluous zeros -/

/-- Whether there are digits, and no zero in front of others. -/
def IsCanonical (digits : List Digit) : Prop :=
  ∃ d more, digits = d :: more ∧ (d = 0 → more = [])

theorem IsCanonical.ne_nil {digits : List Digit} (h : IsCanonical digits) : digits ≠ [] := by
  obtain ⟨d, more, rfl, _⟩ := h
  exact List.cons_ne_nil d more

theorem isCanonical_singleton (d : Digit) : IsCanonical [d] :=
  ⟨d, [], rfl, fun _ ↦ rfl⟩

theorem isCanonical_ofNat (n : Nat) : IsCanonical (ofNat n) := by
  rcases Nat.eq_zero_or_pos n with rfl | hpos
  · rw [ofNat_of_lt (by decide)]
    exact isCanonical_singleton _
  · have hhead := head_ofNat_ne_zero (Nat.ne_of_gt hpos)
    cases hdigits : ofNat n with
    | nil => exact absurd hdigits (ofNat_ne_nil n)
    | cons d more =>
      simp only [hdigits, List.head_cons] at hhead
      exact ⟨d, more, rfl, fun hd ↦ absurd hd hhead⟩

end Digits

namespace Literal

/-- Whether a literal is written without a superfluous zero in front and with all its parts. -/
structure IsCanonical (literal : Literal) : Prop where
  whole : Digits.IsCanonical literal.whole
  exponent : ∀ written ∈ literal.exponent, written.2 ≠ []

/-! ## The literal of a floating point number -/

/-- What reading gives is finite. -/
theorem isFinite_of_toBinary64? {literal : Literal} {x : Binary64}
    (h : literal.toBinary64? = some x) : x.isFinite = true := by
  obtain ⟨code, hcode, rfl⟩ := Option.map_eq_some_iff.mp h
  exact Binary64.isFinite_ofParts _ (Decimal.lt_infinityCode hcode)

end Literal

namespace FloatStyle

variable (style : FloatStyle)

@[simp]
theorem negative_arrange (negative : Bool) (digits : List Digit) (last : Int) :
    (style.arrange negative digits last).negative = negative := by
  unfold arrange
  dsimp only
  repeat' split
  all_goals rfl

/-- The digits of a whole number's fraction are zeros. -/
theorem exists_wholeFraction : ∃ count, style.wholeFraction = List.replicate count 0 := by
  unfold wholeFraction
  split
  · exact ⟨1, rfl⟩
  · exact ⟨0, rfl⟩

/-- **However digits are arranged, they keep their value.** -/
theorem nearestCode?_arrange (negative : Bool) {digits : List Digit} (hdigits : digits ≠ [])
    (last : Int) :
    (style.arrange negative digits last).toDecimal.nearestCode? =
      Decimal.nearestCode? ⟨Digits.toNat digits, last⟩ := by
  have hlength : 0 < digits.length := List.length_pos_iff.mpr hdigits
  unfold arrange
  dsimp only
  split
  · split
    · -- A whole number: the zeros behind the digits are a power of ten.
      obtain ⟨count, hcount⟩ := style.exists_wholeFraction
      have hdecimal : Literal.toDecimal
          ⟨negative, digits ++ List.replicate last.toNat 0, style.wholeFraction, none⟩ =
            ⟨Digits.toNat digits * 10 ^ (last.toNat + count), -count⟩ := by
        simp only [Literal.toDecimal, Literal.tenExponent, hcount, List.append_assoc,
          List.replicate_append_replicate, Digits.toNat_append_zeros, List.length_replicate]
        congr 1
        omega
      rw [hdecimal, Decimal.nearestCode?_mul_pow]
      congr 2
      omega
    · split
      · -- The point stands between the digits.
        simp only [Literal.toDecimal, Literal.tenExponent, List.take_append_drop,
          List.length_drop]
        congr 2
        omega
      · -- Zeros stand between the point and the digits.
        simp only [Literal.toDecimal, Literal.tenExponent, List.length_append,
          List.length_replicate]
        rw [← List.append_assoc, show [(0 : Digit)] = List.replicate 1 0 from rfl,
          List.replicate_append_replicate, Digits.toNat_zeros_append]
        congr 2
        omega
  · -- The exponent is that of the first digit.
    have htail : (digits.drop 1).length = digits.length - 1 := List.length_drop
    have hexponent (first : Int) : Literal.tenExponent ⟨negative, digits.take 1, digits.drop 1,
        some (decide (first < 0), Digits.ofNat first.natAbs)⟩ = first := by
      rcases Int.lt_or_le first 0 with hlt | hge
      · simp only [Literal.tenExponent, decide_eq_true hlt, Digits.toNat_ofNat]
        omega
      · simp only [Literal.tenExponent, decide_eq_false (Int.not_lt.mpr hge), Digits.toNat_ofNat]
        omega
    rw [Literal.toDecimal, hexponent]
    simp only [List.take_append_drop, htail]
    congr 2
    omega

/-- The digits that are arranged have no superfluous zero in front, and read as the magnitude. -/
theorem nearestCode?_digits {code : Nat} (h : code < Binary64.infinityCode) :
    ∃ digits last, style.digits code = (digits, last) ∧ Digits.IsCanonical digits ∧
      (digits = [0] → last = 0) ∧
      Decimal.nearestCode? ⟨Digits.toNat digits, last⟩ = some code := by
  rcases Nat.eq_zero_or_pos code with rfl | hpos
  · exact ⟨[0], 0, rfl, Digits.isCanonical_singleton 0, fun _ ↦ rfl, Decimal.nearestCode?_zero 0⟩
  · have hcode : code ≠ 0 := Nat.ne_of_gt hpos
    have hread := Decimal.nearestCode?_shortest style.tie h
    have hcoefficient := Decimal.coefficient_ne_zero hread hcode
    unfold digits
    rw [if_neg hcode]
    cases hshortest : Decimal.shortest style.tie code with
    | mk coefficient exponent =>
      rw [hshortest] at hread hcoefficient
      refine ⟨Digits.ofNat coefficient, exponent, rfl, Digits.isCanonical_ofNat _, ?_, ?_⟩
      · intro hzero
        have hvalue : coefficient = 0 := by
          rw [← Digits.toNat_ofNat coefficient, hzero]
          rfl
        exact absurd hvalue hcoefficient
      · rw [Digits.toNat_ofNat]
        exact hread

/-- A style that gives whole numbers a fraction never writes them as integers. -/
theorem isWhole_arrange (hpoint : style.pointZero = true) (negative : Bool)
    {digits : List Digit} (hdigits : digits ≠ []) (last : Int) :
    (style.arrange negative digits last).isWhole = false := by
  have hlength : 0 < digits.length := List.length_pos_iff.mpr hdigits
  have hfraction : style.wholeFraction ≠ [] := by
    rw [wholeFraction, if_pos hpoint]
    exact List.cons_ne_nil _ _
  have hnot (whole fraction : List Digit) (hne : fraction ≠ []) :
      Literal.isWhole ⟨negative, whole, fraction, none⟩ = false := by
    simp [Literal.isWhole, hne]
  unfold arrange
  dsimp only
  split
  · split
    · exact hnot _ _ hfraction
    split
    · apply hnot
      rw [Ne, List.drop_eq_nil_iff]
      omega
    · exact hnot _ _ (List.append_ne_nil_of_right_ne_nil _ hdigits)
  · simp [Literal.isWhole]

/-- No superfluous zero comes in front of the digits that are arranged. -/
theorem isCanonical_arrange (negative : Bool) {digits : List Digit}
    (hdigits : Digits.IsCanonical digits) {last : Int} (hzero : digits = [0] → last = 0) :
    (style.arrange negative digits last).IsCanonical := by
  obtain ⟨d, more, rfl, hmore⟩ := hdigits
  have hwhole (count : Nat) : Digits.IsCanonical ((d :: more).take (count + 1)) :=
    ⟨d, more.take count, rfl, fun hd ↦ by rw [hmore hd, List.take_nil]⟩
  unfold arrange
  dsimp only
  split
  · split
    · refine ⟨⟨d, more ++ List.replicate last.toNat 0, rfl, fun hd ↦ ?_⟩, nofun⟩
      have hlast : last = 0 := hzero (by rw [hd, hmore hd])
      rw [hmore hd, hlast]
      rfl
    split
    · exact ⟨hwhole _, nofun⟩
    · exact ⟨Digits.isCanonical_singleton 0, nofun⟩
  · refine ⟨hwhole 0, fun written hwritten ↦ ?_⟩
    cases hwritten
    exact Digits.ofNat_ne_nil _

/-- The literal of a finite number is an arrangement of digits that read as its magnitude. -/
theorem exists_literal_eq_arrange {x : Binary64} (h : x.isFinite = true) :
    ∃ digits last, style.literal x = style.arrange x.isNegative digits last ∧
      Digits.IsCanonical digits ∧ (digits = [0] → last = 0) ∧
      Decimal.nearestCode? ⟨Digits.toNat digits, last⟩ = some x.magnitudeCode := by
  have hcode : x.magnitudeCode < Binary64.infinityCode := of_decide_eq_true h
  obtain ⟨digits, last, hdigits, hrest⟩ := style.nearestCode?_digits hcode
  exact ⟨digits, last, by rw [literal, hdigits], hrest⟩

/-- **The literal of a finite number is read as this number.** -/
theorem toBinary64?_literal {x : Binary64} (h : x.isFinite = true) :
    (style.literal x).toBinary64? = some x := by
  obtain ⟨digits, last, hliteral, hcanonical, _, hread⟩ := style.exists_literal_eq_arrange h
  rw [hliteral, Literal.toBinary64?, nearestCode?_arrange style _ hcanonical.ne_nil, hread,
    negative_arrange, Option.map_some, Binary64.ofParts_parts]

theorem isWhole_literal (hpoint : style.pointZero = true) {x : Binary64}
    (h : x.isFinite = true) : (style.literal x).isWhole = false := by
  obtain ⟨digits, last, hliteral, hcanonical, _, _⟩ := style.exists_literal_eq_arrange h
  rw [hliteral]
  exact style.isWhole_arrange hpoint _ hcanonical.ne_nil last

theorem isCanonical_literal {x : Binary64} (h : x.isFinite = true) :
    (style.literal x).IsCanonical := by
  obtain ⟨digits, last, hliteral, hcanonical, hzero, _⟩ := style.exists_literal_eq_arrange h
  rw [hliteral]
  exact style.isCanonical_arrange _ hcanonical hzero

end FloatStyle

namespace Literal

/-! ## Integers -/

theorem isCanonical_ofInt (n : Int) : (ofInt n).IsCanonical :=
  ⟨Digits.isCanonical_ofNat _, nofun⟩

@[simp]
theorem toInt_ofInt (n : Int) : (ofInt n).toInt = n := by
  unfold toInt ofInt
  dsimp only
  rw [Digits.toNat_ofNat]
  split <;> simp only [decide_eq_true_eq] at * <;> omega

/-- An integer is written without a sign unless it is below zero. -/
theorem negative_ofInt (n : Int) : (ofInt n).negative = decide (n < 0) :=
  rfl

/-- Integers that are not large are in the range of floating point numbers. -/
theorem isSome_toBinary64?_ofInt {n : Int} (h : n.natAbs ≤ 2 ^ (63 : Nat)) :
    (ofInt n).toBinary64?.isSome = true := by
  have hdecimal : (ofInt n).toDecimal = ⟨n.natAbs, .ofNat 0⟩ := by
    simp [toDecimal, ofInt, tenExponent]
  have hscale : Decimal.scale ⟨n.natAbs, .ofNat 0⟩ ≤ 310 := by
    have hcount : Digits.count n.natAbs ≤ 19 :=
      Digits.count_le_of_lt (by decide) (Nat.lt_of_le_of_lt h (by decide))
    change (Digits.count n.natAbs : Int) + 0 ≤ 310
    omega
  have hlt : Decimal.roundedCode ⟨n.natAbs, .ofNat 0⟩ < Binary64.infinityCode := by
    rw [Decimal.roundedCode_of_nonneg, Nat.pow_zero, Nat.mul_one]
    exact Binary64.nearestCode_whole_lt h
  rw [toBinary64?, Option.isSome_map, hdecimal, Decimal.nearestCode?_eq,
    if_neg (Int.not_lt.mpr hscale), if_pos hlt]
  split
  · rfl
  · split <;> rfl

/-! ## Text -/

/-- Whether a text does not go on with a number in front of it. -/
def Ends (text : List Char) : Prop :=
  ∀ c ∈ text.head?, Digit.ofChar? c = none ∧ c ≠ '.' ∧ c ≠ 'e' ∧ c ≠ 'E'

theorem Ends.digits {text : List Char} (h : Ends text) : Digits.Ends text :=
  fun c hc ↦ (h c hc).1

theorem takeExponent_of_ends {text : List Char} (h : Ends text) :
    takeExponent text = some (none, text) := by
  cases text with
  | nil => rfl
  | cons c rest =>
    obtain ⟨_, _, he, hE⟩ := h c rfl
    rw [takeExponent, if_neg (not_or.mpr ⟨he, hE⟩)]

theorem takeExponent_exponentChars {exponent : Option (Bool × List Digit)}
    (hne : ∀ written ∈ exponent, written.2 ≠ []) {rest : List Char} (h : Ends rest) :
    takeExponent (exponentChars exponent ++ rest) = some (exponent, rest) := by
  match exponent, hne with
  | none, _ => exact takeExponent_of_ends h
  | some (negative, d :: more), _ =>
    have hsign : takeSign ((if negative then '-' else '+') :: (Digits.chars (d :: more) ++ rest)) =
        (negative, Digits.chars (d :: more) ++ rest) := by
      cases negative <;> rfl
    rw [exponentChars, List.cons_append, List.cons_append, takeExponent, if_pos (Or.inl rfl),
      hsign, Digits.takeFrom_chars_append _ h.digits]
  | some (_, []), hne => exact absurd rfl (hne _ rfl)

theorem takeFraction_append (fraction : List Digit) {rest : List Char}
    (h : Digits.Ends rest) (hpoint : ∀ c ∈ rest.head?, c ≠ '.') :
    takeFraction ((if fraction.isEmpty then [] else '.' :: Digits.chars fraction) ++ rest) =
      some (fraction, rest) := by
  cases fraction with
  | nil =>
    cases rest with
    | nil => rfl
    | cons c rest =>
      have hc : c ≠ '.' := hpoint c rfl
      simp [takeFraction, hc]
  | cons d more =>
    rw [List.isEmpty_cons, if_neg Bool.false_ne_true, List.cons_append, takeFraction,
      Digits.takeFrom_chars_append _ h]

theorem takeWhole_append {whole : List Digit} (hwhole : Digits.IsCanonical whole)
    {rest : List Char} (h : Digits.Ends rest) :
    takeWhole (Digits.chars whole ++ rest) = some (whole, rest) := by
  obtain ⟨d, more, rfl, hmore⟩ := hwhole
  rw [takeWhole, Digits.takeFrom_chars_append _ h]
  cases more with
  | nil => rfl
  | cons next more =>
    have hd : d ≠ 0 := fun hzero ↦ absurd (hmore hzero) (List.cons_ne_nil _ _)
    exact if_neg hd

theorem takeMinus_append (negative : Bool) {text : List Char} (h : ∀ c ∈ text.head?, c ≠ '-') :
    takeMinus ((if negative then ['-'] else []) ++ text) = (negative, text) := by
  cases negative with
  | true => rfl
  | false =>
    cases text with
    | nil => rfl
    | cons c rest =>
      have hc : c ≠ '-' := h c rfl
      simp [takeMinus, hc]

theorem ends_exponentChars (exponent : Option (Bool × List Digit)) {rest : List Char}
    (h : Ends rest) : Digits.Ends (exponentChars exponent ++ rest) ∧
      ∀ c ∈ (exponentChars exponent ++ rest).head?, c ≠ '.' := by
  match exponent with
  | none => exact ⟨h.digits, fun c hc ↦ (h c hc).2.1⟩
  | some (negative, digits) =>
    constructor <;> intro c hc <;> cases hc <;> decide

/-- A point in front of a fraction ends the digits before it. -/
theorem ends_fraction (fraction : List Digit) {rest : List Char} (h : Digits.Ends rest) :
    Digits.Ends ((if fraction.isEmpty then [] else '.' :: Digits.chars fraction) ++ rest) := by
  cases fraction with
  | nil => exact h
  | cons d more =>
    intro c hc
    cases hc
    decide

/-- **The text of a literal is read as this literal**, if what follows does not go on with the
number. -/
theorem takeFrom_chars_append {literal : Literal} (hliteral : literal.IsCanonical)
    {rest : List Char} (h : Ends rest) :
    takeFrom (literal.chars ++ rest) = some (literal, rest) := by
  obtain ⟨negative, whole, fraction, exponent⟩ := literal
  obtain ⟨hwhole, hexponent⟩ := hliteral
  obtain ⟨hdigits, hpoint⟩ := ends_exponentChars exponent h
  have hminus : ∀ c ∈ (Digits.chars whole ++
      ((if fraction.isEmpty then [] else '.' :: Digits.chars fraction) ++
        (exponentChars exponent ++ rest))).head?, c ≠ '-' := by
    obtain ⟨d, more, rfl, _⟩ := hwhole
    intro c hc
    cases hc
    exact Digit.char_ne d (by decide)
  unfold takeFrom chars
  simp only [List.append_assoc]
  rw [takeMinus_append negative hminus]
  dsimp only
  rw [takeWhole_append hwhole (ends_fraction fraction hdigits)]
  dsimp only
  rw [takeFraction_append fraction hdigits hpoint]
  dsimp only
  rw [takeExponent_exponentChars hexponent h]

/-- A literal begins with a digit or a minus sign. -/
theorem exists_chars_eq_cons {literal : Literal} (hliteral : literal.IsCanonical) :
    ∃ c rest, literal.chars = c :: rest ∧ (c = '-' ∨ ∃ d : Digit, c = d.char) := by
  obtain ⟨negative, whole, fraction, exponent⟩ := literal
  obtain ⟨⟨d, more, rfl, _⟩, _⟩ := hliteral
  cases negative with
  | true => exact ⟨'-', _, rfl, Or.inl rfl⟩
  | false => exact ⟨d.char, _, rfl, Or.inr ⟨d, rfl⟩⟩

end Literal

end TableStore

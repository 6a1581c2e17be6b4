import TableStore.Number.Literal

/-!
# How floating point numbers are written

A style says which decimal exponents are written out in full, whether a whole number gets a
fraction `.0`, and which way exact ties between shortest texts go. The digits themselves are the
shortest that read back.
-/

namespace TableStore

/-- The decisions about the text of a floating point number that its value leaves open. -/
structure FloatStyle where
  /-- Whether a number of this decimal exponent, that of its first digit, is written out in full
  rather than with an exponent. -/
  plain : Int → Bool
  /-- Whether whole numbers written in full end in `.0`. -/
  pointZero : Bool
  /-- Which of two equally near shortest decimals is written. -/
  tie : Decimal.Tie

namespace FloatStyle

/-- The digits and the exponent of the last digit, zero being a single digit. -/
def digits (style : FloatStyle) (code : Nat) : List Digit × Int :=
  if code = 0 then ([0], 0)
  else
    let d := Decimal.shortest style.tie code
    (Digits.ofNat d.coefficient, d.exponent)

/-- The digits after the point of a whole number. -/
def wholeFraction (style : FloatStyle) : List Digit :=
  if style.pointZero then [0] else []

/-- The literal with the given sign and digits, the last of them having the exponent `last`. -/
def arrange (style : FloatStyle) (negative : Bool) (digits : List Digit) (last : Int) : Literal :=
  let first := last + digits.length - 1
  if style.plain first then
    if 0 ≤ last then
      ⟨negative, digits ++ List.replicate last.toNat 0, style.wholeFraction, none⟩
    else if 0 ≤ first then
      ⟨negative, digits.take (first.toNat + 1), digits.drop (first.toNat + 1), none⟩
    else
      ⟨negative, [0], List.replicate (-first - 1).toNat 0 ++ digits, none⟩
  else
    ⟨negative, digits.take 1, digits.drop 1,
      some (decide (first < 0), Digits.ofNat first.natAbs)⟩

/-- The literal of a finite number. -/
def literal (style : FloatStyle) (x : Binary64) : Literal :=
  match style.digits x.magnitudeCode with
  | (digits, last) => style.arrange x.isNegative digits last

end FloatStyle

end TableStore

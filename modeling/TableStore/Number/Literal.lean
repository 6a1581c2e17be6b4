import TableStore.Number.Decimal

/-!
# Number literals

The text of a number in its parts: a sign, the digits before and after the point, and an exponent.
Reading takes the longest literal at the front of a text; a number is never written with a
superfluous leading zero, a bare point or a plus sign in front.
-/

namespace TableStore

/-- The parts of a number's text. Without digits after the point there is no point either. -/
structure Literal where
  negative : Bool
  whole : List Digit
  fraction : List Digit
  /-- Sign and digits of the exponent, if one is written. -/
  exponent : Option (Bool × List Digit)
  deriving DecidableEq, Repr

namespace Literal

/-! ## Meaning -/

/-- Whether there is neither a fraction nor an exponent. -/
def isWhole (lit : Literal) : Bool :=
  lit.fraction.isEmpty && lit.exponent.isNone

/-- The integer before the point. -/
def toInt (lit : Literal) : Int :=
  if lit.negative then -(Digits.toNat lit.whole : Int) else Digits.toNat lit.whole

/-- The written exponent of ten, zero if there is none. -/
def tenExponent (lit : Literal) : Int :=
  match lit.exponent with
  | none => 0
  | some (true, digits) => -(Digits.toNat digits : Int)
  | some (false, digits) => Digits.toNat digits

/-- The magnitude of the literal. -/
def toDecimal (lit : Literal) : Decimal :=
  ⟨Digits.toNat (lit.whole ++ lit.fraction), lit.tenExponent - lit.fraction.length⟩

/-- The nearest floating point number, or none if that is not finite. That every literal is read to
the nearest one, and so a printed number as what it was, is an assumption about the reader, which
may be one that promises no more than to come close. -/
def toBinary64? (lit : Literal) : Option Binary64 :=
  lit.toDecimal.nearestCode?.map (Binary64.ofParts lit.negative)

/-- The literal of an integer. -/
def ofInt (n : Int) : Literal :=
  ⟨decide (n < 0), Digits.ofNat n.natAbs, [], none⟩

/-! ## Text -/

/-- The characters of an exponent, its sign always written. -/
def exponentChars : Option (Bool × List Digit) → List Char
  | none => []
  | some (negative, digits) => 'e' :: (if negative then '-' else '+') :: Digits.chars digits

/-- The characters of a literal. -/
def chars (lit : Literal) : List Char :=
  (if lit.negative then ['-'] else []) ++ Digits.chars lit.whole ++
    (if lit.fraction.isEmpty then [] else '.' :: Digits.chars lit.fraction) ++
    exponentChars lit.exponent

/-- Reads the digits before the point: a single zero, or digits that do not start with one. -/
def takeWhole (text : List Char) : Option (List Digit × List Char) :=
  match Digits.takeFrom text with
  | ([], _) => none
  | ([d], rest) => some ([d], rest)
  | (d :: more, rest) => if d = 0 then none else some (d :: more, rest)

/-- Reads a point and the digits after it, if a point is there. -/
def takeFraction : List Char → Option (List Digit × List Char)
  | '.' :: rest =>
    match Digits.takeFrom rest with
    | ([], _) => none
    | (digits, rest) => some (digits, rest)
  | text => some ([], text)

/-- Reads the sign of an exponent; without one it is positive. -/
def takeSign : List Char → Bool × List Char
  | '-' :: rest => (true, rest)
  | '+' :: rest => (false, rest)
  | text => (false, text)

/-- Reads an exponent, if its letter is there. -/
def takeExponent (text : List Char) : Option (Option (Bool × List Digit) × List Char) :=
  match text with
  | c :: rest =>
    if c = 'e' ∨ c = 'E' then
      match Digits.takeFrom (takeSign rest).2 with
      | ([], _) => none
      | (digits, after) => some (some ((takeSign rest).1, digits), after)
    else some (none, text)
  | [] => some (none, [])

/-- Reads the minus sign, if one is there. -/
def takeMinus : List Char → Bool × List Char
  | '-' :: rest => (true, rest)
  | text => (false, text)

/-- Reads the literal at the front of a text, and returns what follows it. -/
def takeFrom (text : List Char) : Option (Literal × List Char) :=
  match takeWhole (takeMinus text).2 with
  | none => none
  | some (whole, rest) =>
    match takeFraction rest with
    | none => none
    | some (fraction, rest) =>
      match takeExponent rest with
      | none => none
      | some (exponent, rest) => some (⟨(takeMinus text).1, whole, fraction, exponent⟩, rest)

/-! ## What reading leaves -/

theorem length_takeWhole {text rest : List Char} {digits : List Digit}
    (h : takeWhole text = some (digits, rest)) : rest.length < text.length := by
  have hlen := Digits.length_takeFrom text
  unfold takeWhole at h
  split at h
  · cases h
  · next heq => cases h; rw [heq] at hlen; simp at hlen; omega
  · next heq =>
    split at h
    · cases h
    · cases h; rw [heq] at hlen; simp at hlen; omega

theorem length_takeFraction {text rest : List Char} {digits : List Digit}
    (h : takeFraction text = some (digits, rest)) : rest.length ≤ text.length := by
  unfold takeFraction at h
  split at h
  · next after =>
    have hlen := Digits.length_takeFrom after
    split at h
    · cases h
    · next heq => cases h; rw [heq] at hlen; simp at hlen ⊢; omega
  · cases h; exact Nat.le_refl _

theorem length_takeSign (text : List Char) : (takeSign text).2.length ≤ text.length := by
  unfold takeSign; split <;> simp

theorem length_takeMinus (text : List Char) : (takeMinus text).2.length ≤ text.length := by
  unfold takeMinus; split <;> simp

theorem length_takeExponent {text rest : List Char} {exponent : Option (Bool × List Digit)}
    (h : takeExponent text = some (exponent, rest)) : rest.length ≤ text.length := by
  unfold takeExponent at h
  split at h
  · next c after =>
    have hlen := Digits.length_takeFrom (takeSign after).2
    have hsign := length_takeSign after
    split at h
    · split at h
      · cases h
      · next heq => cases h; rw [heq] at hlen; simp at hlen ⊢; omega
    · cases h; exact Nat.le_refl _
  · cases h; exact Nat.le_refl _

/-- A literal has at least one character. -/
theorem length_takeFrom {text rest : List Char} {lit : Literal}
    (h : takeFrom text = some (lit, rest)) : rest.length < text.length := by
  have hm := length_takeMinus text
  unfold takeFrom at h
  split at h
  · cases h
  · next hw =>
    split at h
    · cases h
    · next hf =>
      split at h
      · cases h
      · next he =>
        cases h
        have := length_takeWhole hw
        have := length_takeFraction hf
        have := length_takeExponent he
        omega

end Literal

end TableStore

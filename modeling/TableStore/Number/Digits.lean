/-!
# Decimal digits

Natural numbers as lists of decimal digits, most significant first. Zero is the single digit `0`
and no other number is written with a leading zero; reading accepts leading zeros.
-/

-- The zero is that of the core library, whatever is imported beside it.
attribute [local instance (1100)] Zero.ofOfNat0

namespace TableStore

/-- A decimal digit. -/
abbrev Digit := Fin 10

instance Digit.instNeZero : NeZero 10 := ⟨by decide⟩

namespace Digit

/-- The character of a digit. -/
def char (d : Digit) : Char :=
  Char.ofNat (48 + d.val)

/-- The digit that a character stands for. -/
def ofChar? (c : Char) : Option Digit :=
  if h : 48 ≤ c.toNat ∧ c.toNat < 58 then some ⟨c.toNat - 48, by omega⟩ else none

@[simp]
theorem ofChar?_char (d : Digit) : ofChar? d.char = some d := by
  revert d; decide

end Digit

namespace Digits

/-- The number that a list of digits spells. -/
def toNat (digits : List Digit) : Nat :=
  digits.foldl (fun n d => 10 * n + d.val) 0

/-- Puts the digits of a number in front of the digits already written. -/
def prepend (n : Nat) (written : List Digit) : List Digit :=
  if h : n < 10 then ⟨n, h⟩ :: written
  else prepend (n / 10) (⟨n % 10, Nat.mod_lt n (by decide)⟩ :: written)
  termination_by n

/-- The digits of a number. -/
def ofNat (n : Nat) : List Digit :=
  prepend n []

/-- How many digits a number has. -/
def count (n : Nat) : Nat :=
  (ofNat n).length

theorem foldl_prepend (n : Nat) (written : List Digit) :
    toNat (prepend n written) = written.foldl (fun n d => 10 * n + d.val) n := by
  fun_induction prepend n written with
  | case1 n written h => simp [toNat]
  | case2 n written h ih =>
    rw [ih, List.foldl_cons]
    congr 1
    simp only
    omega

@[simp]
theorem toNat_ofNat (n : Nat) : toNat (ofNat n) = n := by
  rw [ofNat, foldl_prepend]; rfl

/-- The characters of a list of digits. -/
def chars (digits : List Digit) : List Char :=
  digits.map Digit.char

/-- Reads as many digits as there are, and returns what follows them. -/
def takeFrom : List Char → List Digit × List Char
  | [] => ([], [])
  | c :: rest =>
    match Digit.ofChar? c with
    | some d =>
      match takeFrom rest with
      | (digits, after) => (d :: digits, after)
    | none => ([], c :: rest)

theorem length_takeFrom (text : List Char) :
    (takeFrom text).2.length + (takeFrom text).1.length = text.length := by
  induction text with
  | nil => rfl
  | cons c rest ih =>
    simp only [takeFrom]
    split
    · simp only [List.length_cons]; omega
    · rfl

end Digits

end TableStore

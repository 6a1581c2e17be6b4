import TableStore.Number.Binary64
import TableStore.Number.Digits

/-!
# Decimal numbers and the nearest binary ones

A decimal number is a coefficient times a power of ten. Reading it as a binary number rounds to
the nearest one, ties to even. Writing a binary number looks for the shortest decimal number that
reads back: the exact expansion is cut to one, two, three, … digits until the value cut down or
up at that length reads back, and the exact expansion itself is the last resort.
-/

-- Powers are those of the core library, whatever is imported beside it.
attribute [local instance (1100)] instPowNat

namespace TableStore

/-- The number `coefficient * 10 ^ exponent`. -/
structure Decimal where
  coefficient : Nat
  exponent : Int
  deriving DecidableEq, Repr

namespace Decimal

/-! ## Reading -/

/-- The magnitude code nearest to a decimal number, or none if that is not finite. Numbers below
`10 ^ (-331)` are zero and numbers from `10 ^ 310` on are too large whatever their digits. -/
def nearestCode? (d : Decimal) : Option Nat :=
  if d.coefficient = 0 then some 0
  else
    let scale := Digits.count d.coefficient + d.exponent
    if scale < -330 then some 0
    else if 310 < scale then none
    else
      let code :=
        match d.exponent with
        | .ofNat e => Binary64.nearestCode (d.coefficient * 10 ^ e * 2 ^ (1074 : Nat)) 1
        | .negSucc e => Binary64.nearestCode (d.coefficient * 2 ^ (1074 : Nat)) (10 ^ (e + 1))
      if code < Binary64.infinityCode then some code else none

/-! ## Writing -/

/-- Which of two equally near decimal numbers is written. -/
inductive Tie where
  /-- The one whose last digit is even. -/
  | toEven
  /-- The larger one. -/
  | up
  deriving DecidableEq, Repr

/-- All digits of a finite magnitude: `units / 2 ^ 1074`, with numerator and denominator
multiplied by `5 ^ 1074`. -/
def exact (code : Nat) : Decimal :=
  ⟨Binary64.units code * 5 ^ (1074 : Nat), -1074⟩

/-- Drops the last `dropped` digits. -/
def cut (d : Decimal) (dropped : Nat) : Decimal :=
  ⟨d.coefficient / 10 ^ dropped, d.exponent + dropped⟩

/-- The next larger number with the same exponent. -/
def next (d : Decimal) : Decimal :=
  { d with coefficient := d.coefficient + 1 }

/-- Of the two numbers next to `d` with `dropped` digits fewer, the nearer one that reads as
`code`, if any does. -/
def cutReading? (tie : Tie) (code : Nat) (d : Decimal) (dropped : Nat) : Option Decimal :=
  let below := d.cut dropped
  let above := below.next
  let reads (candidate : Decimal) := decide (candidate.nearestCode? = some code)
  match reads below, reads above with
  | false, false => none
  | true, false => some below
  | false, true => some above
  | true, true =>
    match compare (2 * (d.coefficient % 10 ^ dropped)) (10 ^ dropped) with
    | .lt => some below
    | .gt => some above
    | .eq =>
      match tie with
      | .toEven => some (if below.coefficient % 2 = 0 then below else above)
      | .up => some above

/-- Writes trailing zeros of the coefficient into the exponent. -/
def reduce (d : Decimal) : Decimal :=
  if h : d.coefficient ≠ 0 ∧ d.coefficient % 10 = 0 then reduce ⟨d.coefficient / 10, d.exponent + 1⟩
  else d
  termination_by d.coefficient
  decreasing_by omega

/-- The shortest decimal number that reads as the magnitude `code`, and of the shortest ones the
nearest. Seventeen digits are enough for any magnitude. -/
def shortest (tie : Tie) (code : Nat) : Decimal :=
  let all := exact code
  let length := Digits.count all.coefficient
  let found := (List.range 17).findSome? fun i => cutReading? tie code all (length - (i + 1))
  (found.getD all).reduce

end Decimal

end TableStore

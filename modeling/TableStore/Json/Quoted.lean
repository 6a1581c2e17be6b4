/-!
# Quoted text

A JSON string stands between quotes. A quote, a backslash and the control characters are written
as escapes; all other characters stand for themselves, and may be written as escapes too.
An escape of four hexadecimal digits is a UTF-16 unit, and a surrogate pair spells one character.
-/

namespace TableStore.Quoted

/-- What one character or escape of a quoted text spells. -/
inductive Piece where
  /-- A character. -/
  | char (c : Char)
  /-- A high surrogate. -/
  | high (unit : Nat)
  /-- A low surrogate. -/
  | low (unit : Nat)
  deriving DecidableEq, Repr

/-! ## Writing -/

/-- The hexadecimal digit of a number below sixteen. -/
def hexChar (n : Nat) : Char :=
  if n < 10 then Char.ofNat (48 + n) else Char.ofNat (87 + n)

/-- A character as it is written. -/
def charText (c : Char) : List Char :=
  if c = '"' then ['\\', '"']
  else if c = '\\' then ['\\', '\\']
  else if c = '\n' then ['\\', 'n']
  else if c = '\r' then ['\\', 'r']
  else if c = '\t' then ['\\', 't']
  else if c = '\x08' then ['\\', 'b']
  else if c = '\x0c' then ['\\', 'f']
  else if c.toNat < 32 then ['\\', 'u', '0', '0', hexChar (c.toNat / 16), hexChar (c.toNat % 16)]
  else [c]

/-- A text in quotes. -/
def quote (text : List Char) : List Char :=
  '"' :: text.flatMap charText ++ ['"']

/-! ## Reading -/

/-- The value of a hexadecimal digit. -/
def hexDigit? (c : Char) : Option Nat :=
  if '0' ≤ c ∧ c ≤ '9' then some (c.toNat - 48)
  else if 'a' ≤ c ∧ c ≤ 'f' then some (c.toNat - 87)
  else if 'A' ≤ c ∧ c ≤ 'F' then some (c.toNat - 55)
  else none

/-- What a UTF-16 unit spells. -/
def unitPiece (unit : Nat) : Piece :=
  if unit < 0xD800 then .char (Char.ofNat unit)
  else if unit < 0xDC00 then .high unit
  else if unit < 0xE000 then .low unit
  else .char (Char.ofNat unit)

/-- What an escape of four hexadecimal digits spells. -/
def hexPiece? (a b c d : Char) : Option Piece :=
  match hexDigit? a, hexDigit? b, hexDigit? c, hexDigit? d with
  | some a, some b, some c, some d => some (unitPiece (((a * 16 + b) * 16 + c) * 16 + d))
  | _, _, _, _ => none

/-- What an escape of a single character spells. -/
def shortEscape? (c : Char) : Option Char :=
  if c = '"' then some '"'
  else if c = '\\' then some '\\'
  else if c = '/' then some '/'
  else if c = 'b' then some '\x08'
  else if c = 'f' then some '\x0c'
  else if c = 'n' then some '\n'
  else if c = 'r' then some '\r'
  else if c = 't' then some '\t'
  else none

/-- Puts a piece in front of what reading the rest gives. -/
def before (piece : Piece) (read : Option (List Piece × List Char)) :
    Option (List Piece × List Char) :=
  read.map fun (pieces, rest) => (piece :: pieces, rest)

/-- Reads up to the closing quote, and returns the pieces and what follows the quote. -/
def takePieces : List Char → Option (List Piece × List Char)
  | [] => none
  | c :: rest =>
    if c = '"' then some ([], rest)
    else if c = '\\' then
      match rest with
      | [] => none
      | e :: rest =>
        if e = 'u' then
          match rest with
          | a :: b :: c :: d :: rest =>
            match hexPiece? a b c d with
            | none => none
            | some piece => before piece (takePieces rest)
          | _ => none
        else
          match shortEscape? e with
          | none => none
          | some c => before (.char c) (takePieces rest)
    else if c.toNat < 32 then none
    else before (.char c) (takePieces rest)

/-- The text that pieces spell, a high surrogate with the low one after it being one character;
none if a surrogate stands alone. -/
def joinPieces : List Piece → Option (List Char)
  | [] => some []
  | .char c :: rest => (joinPieces rest).map (c :: ·)
  | .high h :: .low l :: rest =>
    (joinPieces rest).map (Char.ofNat (0x10000 + (h - 0xD800) * 0x400 + (l - 0xDC00)) :: ·)
  | _ :: _ => none

/-- Reads the rest of a string after its opening quote. -/
def takeFrom (text : List Char) : Option (Option String × List Char) :=
  match takePieces text with
  | none => none
  | some (pieces, rest) => some ((joinPieces pieces).map String.ofList, rest)

theorem eq_some_of_before {piece : Piece} {read : Option (List Piece × List Char)}
    {pieces : List Piece} {rest : List Char} (h : before piece read = some (pieces, rest)) :
    ∃ others, read = some (others, rest) := by
  obtain ⟨⟨others, after⟩, hread, heq⟩ := Option.map_eq_some_iff.1 h
  cases heq
  exact ⟨others, hread⟩

theorem length_takePieces {text rest : List Char} {pieces : List Piece}
    (h : takePieces text = some (pieces, rest)) : rest.length < text.length := by
  fun_induction takePieces text generalizing pieces with
  | case1 | case3 | case4 | case6 | case7 | case9 => cases h
  | case2 => cases h; simp
  | case5 | case8 | case10 =>
    rename_i ih
    obtain ⟨others, hread⟩ := eq_some_of_before h
    have := ih hread
    simp only [List.length_cons]
    omega

theorem length_takeFrom {text rest : List Char} {spelled : Option String}
    (h : takeFrom text = some (spelled, rest)) : rest.length < text.length := by
  unfold takeFrom at h
  split at h
  · cases h
  · next hp => cases h; exact length_takePieces hp

end TableStore.Quoted

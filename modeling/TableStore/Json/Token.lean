import TableStore.Json.Basic
import TableStore.Json.Quoted

/-!
# JSON texts as tokens

Reading goes from left to right; blanks between tokens are skipped. Writing puts the tokens one
after the other with nothing in between.
-/

namespace TableStore.Json.Token

/-! ## Writing -/

/-- The characters of a token. A string that spells no text is written as `null`. -/
def chars : Token → List Char
  | .null => ['n', 'u', 'l', 'l']
  | .bool true => ['t', 'r', 'u', 'e']
  | .bool false => ['f', 'a', 'l', 's', 'e']
  | .number literal => literal.chars
  | .string (some text) => Quoted.quote text.toList
  | .string none => ['n', 'u', 'l', 'l']
  | .openArray => ['[']
  | .closeArray => [']']
  | .openObject => ['{']
  | .closeObject => ['}']
  | .comma => [',']
  | .colon => [':']

/-! ## Reading -/

/-- The blanks that may stand between tokens. -/
def isBlank (c : Char) : Bool :=
  c == ' ' || c == '\t' || c == '\n' || c == '\r'

/-- The token that is a single character. -/
def ofMark? (c : Char) : Option Token :=
  if c = '[' then some .openArray
  else if c = ']' then some .closeArray
  else if c = '{' then some .openObject
  else if c = '}' then some .closeObject
  else if c = ',' then some .comma
  else if c = ':' then some .colon
  else none

/-- The token that is a word, and what follows it. -/
def takeWord : List Char → Option (Token × List Char)
  | 'n' :: 'u' :: 'l' :: 'l' :: rest => some (.null, rest)
  | 't' :: 'r' :: 'u' :: 'e' :: rest => some (.bool true, rest)
  | 'f' :: 'a' :: 'l' :: 's' :: 'e' :: rest => some (.bool false, rest)
  | _ => none

/-- Reads the token at the front of a text that does not start with a blank. -/
def takeFrom (text : List Char) : Option (Token × List Char) :=
  match text with
  | [] => none
  | c :: rest =>
    match ofMark? c with
    | some token => some (token, rest)
    | none =>
      if c = '"' then (Quoted.takeFrom rest).map fun (spelled, rest) => (.string spelled, rest)
      else
        match takeWord text with
        | some read => some read
        | none => (Literal.takeFrom text).map fun (literal, rest) => (.number literal, rest)

theorem length_takeWord {text rest : List Char} {token : Token}
    (h : takeWord text = some (token, rest)) : rest.length < text.length := by
  unfold takeWord at h
  split at h <;> cases h <;> simp only [List.length_cons] <;> omega

theorem length_takeFrom {text rest : List Char} {token : Token}
    (h : takeFrom text = some (token, rest)) : rest.length < text.length := by
  unfold takeFrom at h
  split at h
  · cases h
  · next c after =>
    split at h
    · cases h; simp
    · split at h
      · obtain ⟨⟨spelled, r⟩, hr, heq⟩ := Option.map_eq_some_iff.1 h
        cases heq
        have := Quoted.length_takeFrom hr
        simp only [List.length_cons]; omega
      · split at h
        · next hw => cases h; exact length_takeWord hw
        · obtain ⟨⟨literal, r⟩, hr, heq⟩ := Option.map_eq_some_iff.1 h
          cases heq
          exact Literal.length_takeFrom hr

/-- All tokens of a text. -/
def ofChars (text : List Char) : Option (List Token) :=
  match text with
  | [] => some []
  | c :: rest =>
    if isBlank c then ofChars rest
    else
      match _h : takeFrom (c :: rest) with
      | none => none
      | some (token, after) => (ofChars after).map (token :: ·)
  termination_by text.length
  decreasing_by
    · exact Nat.lt_succ_self _
    · exact length_takeFrom _h

end TableStore.Json.Token

import TableStore.Json.Quoted

/-!
# Quoted text written and read

Each character is read back from what is written for it, be that the character itself or an
escape. A quoted text is therefore read back as a whole, and reading stops behind its quote.
-/

namespace TableStore.Quoted

/-! ## Hexadecimal digits -/

theorem hexDigit?_hexChar {n : Nat} (h : n < 16) : hexDigit? (hexChar n) = some n := by
  have hall : ∀ n : Fin 16, hexDigit? (hexChar n) = some n.val := by decide
  exact hall ⟨n, h⟩

/-- The escape of a control character spells this character. -/
theorem hexPiece?_control {c : Char} (h : c.toNat < 32) :
    hexPiece? '0' '0' (hexChar (c.toNat / 16)) (hexChar (c.toNat % 16)) = some (.char c) := by
  have hzero : hexDigit? '0' = some 0 := rfl
  have hunit : ((0 * 16 + 0) * 16 + c.toNat / 16) * 16 + c.toNat % 16 = c.toNat := by omega
  rw [hexPiece?, hzero, hexDigit?_hexChar (by omega), hexDigit?_hexChar (by omega)]
  dsimp only
  rw [hunit, unitPiece, if_pos (by omega), Char.ofNat_toNat]

/-! ## Characters and texts -/

theorem takePieces_short {e c : Char} (he : e ≠ 'u') (hc : shortEscape? e = some c)
    (rest : List Char) :
    takePieces ('\\' :: e :: rest) = before (.char c) (takePieces rest) := by
  rw [takePieces.eq_def]
  dsimp only
  rw [if_neg (by decide), if_pos rfl, if_neg he, hc]

theorem takePieces_hex {a b c d : Char} {piece : Piece} (h : hexPiece? a b c d = some piece)
    (rest : List Char) :
    takePieces ('\\' :: 'u' :: a :: b :: c :: d :: rest) = before piece (takePieces rest) := by
  rw [takePieces.eq_def]
  dsimp only
  rw [if_neg (by decide), if_pos rfl, if_pos rfl, h]

theorem takePieces_plain {c : Char} (hquote : c ≠ '"') (hslash : c ≠ '\\') (h : ¬ c.toNat < 32)
    (rest : List Char) : takePieces (c :: rest) = before (.char c) (takePieces rest) := by
  rw [takePieces.eq_def]
  dsimp only
  rw [if_neg hquote, if_neg hslash, if_neg h]

/-- What is written for a character is read as this character. -/
theorem takePieces_charText (c : Char) (rest : List Char) :
    takePieces (charText c ++ rest) = before (.char c) (takePieces rest) := by
  unfold charText
  split
  · next h =>
    subst h
    exact takePieces_short (by decide) rfl rest
  split
  · next h =>
    subst h
    exact takePieces_short (by decide) rfl rest
  split
  · next h =>
    subst h
    exact takePieces_short (by decide) rfl rest
  split
  · next h =>
    subst h
    exact takePieces_short (by decide) rfl rest
  split
  · next h =>
    subst h
    exact takePieces_short (by decide) rfl rest
  split
  · next h =>
    subst h
    exact takePieces_short (by decide) rfl rest
  split
  · next h =>
    subst h
    exact takePieces_short (by decide) rfl rest
  split
  · next h => exact takePieces_hex (hexPiece?_control h) rest
  · next hquote hslash _ _ _ _ _ h => exact takePieces_plain hquote hslash h rest

theorem takePieces_flatMap (text rest : List Char) :
    takePieces (text.flatMap charText ++ '"' :: rest) = some (text.map .char, rest) := by
  induction text with
  | nil =>
    rw [takePieces.eq_def]
    rfl
  | cons c others ih =>
    rw [List.flatMap_cons, List.append_assoc, takePieces_charText, ih]
    rfl

theorem joinPieces_map_char (text : List Char) : joinPieces (text.map .char) = some text := by
  induction text with
  | nil => rfl
  | cons c others ih =>
    rw [List.map_cons, joinPieces, ih]
    rfl

/-- **A quoted text is read back**, and what follows its closing quote is left. -/
theorem takeFrom_flatMap (text : String) (rest : List Char) :
    takeFrom (text.toList.flatMap charText ++ '"' :: rest) = some (some text, rest) := by
  rw [takeFrom, takePieces_flatMap]
  dsimp only
  rw [joinPieces_map_char, Option.map_some, String.ofList_toList]

end TableStore.Quoted

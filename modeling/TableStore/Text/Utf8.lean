import TableStore.Bytes

/-!
# UTF-8 text

A text is written as its UTF-8 bytes. Reading accepts exactly the well-formed byte strings; of any
other it says where the longest well-formed beginning ends and how many bytes of a broken
sequence stand there.
-/

namespace TableStore.Utf8

/-- The UTF-8 bytes of a text. -/
def encode (text : String) : Bytes :=
  text.toByteArray.data.toList

/-- Where a byte string stops being UTF-8. -/
structure Fault where
  /-- Length of the longest well-formed beginning. -/
  validLength : Nat
  /-- Bytes of the broken sequence that follows; none when the input ends inside a sequence that
  could still be completed. -/
  brokenLength : Option Nat
  deriving DecidableEq, Repr

namespace Fault

/-- The fault in words. -/
def message (fault : Fault) : String :=
  match fault.brokenLength with
  | some n => s!"invalid utf-8 sequence of {n} bytes from index {fault.validLength}"
  | none => s!"incomplete utf-8 byte sequence from index {fault.validLength}"

end Fault

/-- An inclusive range of bytes. -/
structure Range where
  low : UInt8
  high : UInt8

/-- Whether a byte lies in the range. -/
def Range.holds (range : Range) (b : UInt8) : Bool :=
  range.low ≤ b && b ≤ range.high

/-- The bytes that may continue any sequence. -/
def tail : Range := ⟨0x80, 0xBF⟩

/-- The ranges of the bytes that follow a given first byte, or none if no sequence starts so.
The narrower second ranges leave out overlong forms, surrogates and values past U+10FFFF. -/
def followers (lead : UInt8) : Option (List Range) :=
  if lead ≤ 0x7F then some []
  else if lead < 0xC2 then none
  else if lead ≤ 0xDF then some [tail]
  else if lead = 0xE0 then some [⟨0xA0, 0xBF⟩, tail]
  else if lead = 0xED then some [⟨0x80, 0x9F⟩, tail]
  else if lead ≤ 0xEF then some [tail, tail]
  else if lead = 0xF0 then some [⟨0x90, 0xBF⟩, tail, tail]
  else if lead ≤ 0xF3 then some [tail, tail, tail]
  else if lead = 0xF4 then some [⟨0x80, 0x8F⟩, tail, tail]
  else none

/-- What the bytes after a first byte turn out to be. -/
inductive Continuation where
  /-- All the expected bytes are there. -/
  | complete
  /-- The input ends too early. -/
  | cut
  /-- So many bytes fit and the next does not. -/
  | broken (fitting : Nat)

/-- Compares the bytes after a first byte with the ranges they have to lie in. -/
def continuation : List Range → Bytes → Continuation
  | [], _ => .complete
  | _ :: _, [] => .cut
  | range :: ranges, b :: rest =>
    if range.holds b then
      match continuation ranges rest with
      | .broken fitting => .broken (fitting + 1)
      | other => other
    else .broken 0

/-- The first fault at or after the beginning of `bytes`, `valid` well-formed bytes having gone
before. The end of the input counts as a sequence cut short. -/
def firstFault (valid : Nat) : Bytes → Fault
  | [] => ⟨valid, none⟩
  | lead :: rest =>
    match followers lead with
    | none => ⟨valid, some 1⟩
    | some ranges =>
      match continuation ranges rest with
      | .complete => firstFault (valid + 1 + ranges.length) (rest.drop ranges.length)
      | .cut => ⟨valid, none⟩
      | .broken fitting => ⟨valid, some (fitting + 1)⟩
  termination_by bytes => bytes.length
  decreasing_by simp only [List.length_drop, List.length_cons]; omega

/-- A sequence of three bytes whose third one does not fit, after one good byte. -/
example : firstFault 0 [0x61, 0xE2, 0x82, 0x41] = ⟨1, some 2⟩ := by decide +kernel

/-- A surrogate is refused at its second byte, and a good beginning cut short is incomplete. -/
example : firstFault 0 [0xED, 0xA0, 0x80] = ⟨0, some 1⟩ ∧
    firstFault 0 [0xF0, 0x9F] = ⟨0, none⟩ := by
  decide +kernel

/-- The text that a byte string spells, or the first fault in it. -/
def decode (bytes : Bytes) : Except Fault String :=
  if h : (ByteArray.mk bytes.toArray).IsValidUTF8 then .ok (String.ofByteArray _ h)
  else .error (firstFault 0 bytes)

@[simp]
theorem length_encode (text : String) : (encode text).length = text.utf8ByteSize := by
  rw [encode, Array.length_toList]
  rfl

@[simp]
theorem decode_encode (text : String) : decode (encode text) = .ok text := by
  have h : (⟨(encode text).toArray⟩ : ByteArray) = text.toByteArray := by simp [encode]
  simp [decode, h, text.isValidUTF8]

theorem encode_of_decode {bytes : Bytes} {text : String} (h : decode bytes = .ok text) :
    encode text = bytes := by
  unfold decode at h
  split at h
  · cases h; simp [encode]
  · cases h

/-- Texts with the same bytes are the same text. -/
theorem encode_injective {a b : String} (h : encode a = encode b) : a = b := by
  have hab : (Except.ok a : Except Fault String) = .ok b := by
    rw [← decode_encode a, h, decode_encode]
  exact Except.ok.inj hab

/-- The order of texts by their bytes, the first difference deciding. -/
def order (a b : String) : Ordering :=
  compare (encode a) (encode b)

instance : Std.TransCmp order :=
  inferInstanceAs (Std.TransCmp (compareOn encode))

instance : Std.LawfulEqCmp order where
  eq_of_compare h := encode_injective (Std.LawfulEqOrd.eq_of_compare h)

end TableStore.Utf8

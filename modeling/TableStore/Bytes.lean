/-!
# Byte strings and little-endian numbers

Everything the store keeps on disk is a list of bytes, and every number in it has a fixed width
and is written least significant byte first. Writing and reading are base-256 arithmetic on
natural numbers, and they undo each other for every number that fits the width.
-/

-- Powers are those of the core library, whatever is imported beside it.
attribute [local instance (1100)] instPowNat

namespace TableStore

/-- A byte string. -/
abbrev Bytes := List UInt8

namespace Bytes

/-- Whether there are at least `count` bytes. -/
def reaches (count : Nat) (bytes : Bytes) : Bool :=
  count = 0 || !(bytes.drop (count - 1)).isEmpty

@[simp]
theorem reaches_iff {count : Nat} {bytes : Bytes} :
    reaches count bytes = true ↔ count ≤ bytes.length := by
  simp only [reaches, Bool.or_eq_true, decide_eq_true_eq, Bool.not_eq_true',
    List.isEmpty_eq_false_iff, ne_eq, List.drop_eq_nil_iff]
  omega

/-- The first `count` bytes and the rest, unless there are fewer. -/
def split? (count : Nat) (bytes : Bytes) : Option (Bytes × Bytes) :=
  if reaches count bytes then some (bytes.take count, bytes.drop count) else none

theorem split?_eq_some_iff {count : Nat} {bytes first rest : Bytes} :
    split? count bytes = some (first, rest) ↔ bytes = first ++ rest ∧ first.length = count := by
  unfold split?
  constructor
  · intro h
    split at h
    · next hreach =>
      cases h
      have hcount := reaches_iff.mp hreach
      exact ⟨(List.take_append_drop count bytes).symm, List.length_take_of_le hcount⟩
    · cases h
  · rintro ⟨rfl, rfl⟩
    simp

theorem split?_append (first rest : Bytes) :
    split? first.length (first ++ rest) = some (first, rest) :=
  split?_eq_some_iff.mpr ⟨rfl, rfl⟩

theorem split?_eq_none_iff {count : Nat} {bytes : Bytes} :
    split? count bytes = none ↔ bytes.length < count := by
  unfold split?
  split <;> next h => rw [reaches_iff] at h; simp; omega

end Bytes

namespace LittleEndian

/-- The `width` lowest base-256 digits of a number, least significant first. -/
def encode : (width n : Nat) → Bytes
  | 0, _ => []
  | width + 1, n => UInt8.ofNat n :: encode width (n / 256)

/-- The number whose base-256 digits are the given bytes, least significant first. -/
def decode : Bytes → Nat
  | [] => 0
  | b :: rest => b.toNat + 256 * decode rest

@[simp]
theorem length_encode (width n : Nat) : (encode width n).length = width := by
  induction width generalizing n with
  | zero => rfl
  | succ width ih => simp [encode, ih]

theorem decode_lt (bytes : Bytes) : decode bytes < 256 ^ bytes.length := by
  induction bytes with
  | nil => simp [decode]
  | cons b rest ih =>
    have hb : b.toNat < 256 := b.toNat_lt
    simp only [decode, List.length_cons, Nat.pow_succ]
    omega

theorem decode_encode {width n : Nat} (h : n < 256 ^ width) : decode (encode width n) = n := by
  induction width generalizing n with
  | zero => simp at h; simp [encode, decode, h]
  | succ width ih =>
    have hdiv : n / 256 < 256 ^ width := by
      rw [Nat.pow_succ] at h
      exact Nat.div_lt_of_lt_mul (by omega)
    simp only [encode, decode, ih hdiv, UInt8.toNat_ofNat']
    omega

theorem encode_decode (bytes : Bytes) : encode bytes.length (decode bytes) = bytes := by
  induction bytes with
  | nil => rfl
  | cons b rest ih =>
    have hb : b.toNat < 256 := b.toNat_lt
    have hdiv : (b.toNat + 256 * decode rest) / 256 = decode rest := by omega
    simp only [List.length_cons, encode, decode, hdiv, ih, List.cons.injEq, and_true]
    apply UInt8.toNat_inj.1
    rw [UInt8.toNat_ofNat']
    omega

end LittleEndian

end TableStore

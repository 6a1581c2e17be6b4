import TableStore.Failure

/-!
# Reading without looking first

The first bytes of a string are asked for, or the byte at a position, as if they were there, and if
they are not the reading has gone out of range. This is no failure that could be reported: there is
nothing behind it. What is read in this way has to make sure of the length beforehand, and whether
it does is what is proved about it.
-/

namespace TableStore

/-- What comes of a reading: it goes out of range, or it fails, or it gives a value. -/
inductive Unguarded (α : Type) where
  | outOfRange
  | failed (failure : Failure)
  | done (result : α)

namespace Unguarded

variable {α β : Type}

instance : Monad Unguarded where
  pure := .done
  bind reading next :=
    match reading with
    | .outOfRange => .outOfRange
    | .failed failure => .failed failure
    | .done result => next result

@[simp]
theorem done_bind (result : α) (next : α → Unguarded β) :
    (Unguarded.done result >>= next) = next result := rfl

@[simp]
theorem failed_bind (failure : Failure) (next : α → Unguarded β) :
    (Unguarded.failed failure >>= next) = .failed failure := rfl

@[simp]
theorem pure_eq (result : α) : (pure result : Unguarded α) = .done result := rfl

/-- A reading that has kept within range. -/
def ofExcept : Except Failure α → Unguarded α
  | .ok result => .done result
  | .error failure => .failed failure

/-- What is there, or else out of range. -/
def ofOption : Option α → Unguarded α
  | some result => .done result
  | none => .outOfRange

/-! ## Unguarded accesses -/

/-- The member of a list at a position. -/
def member (list : List α) (position : Nat) : Unguarded α :=
  ofOption list[position]?

/-- The first `count` bytes and the rest. -/
def split (count : Nat) (bytes : Bytes) : Unguarded (Bytes × Bytes) :=
  ofOption (Bytes.split? count bytes)

/-- The first `count` bytes. -/
def front (count : Nat) (bytes : Bytes) : Unguarded Bytes := do
  let (first, _) ← split count bytes
  return first

/-- What is behind the first `count` bytes. -/
def behind (count : Nat) (bytes : Bytes) : Unguarded Bytes := do
  let (_, rest) ← split count bytes
  return rest

/-- The number in the first `width` bytes, and the rest. -/
def number (width : Nat) (bytes : Bytes) : Unguarded (Nat × Bytes) := do
  let (digits, rest) ← split width bytes
  return (LittleEndian.decode digits, rest)

/-- One length less another one, below which there is none. -/
def minus (length other : Nat) : Unguarded Nat :=
  if other ≤ length then .done (length - other) else .outOfRange

/-! ## Accesses within range -/

variable {count width : Nat} {bytes first rest : Bytes}

theorem member_of_lt {list : List α} {position : Nat} (h : position < list.length) :
    member list position = .done list[position] := by
  rw [member, List.getElem?_eq_getElem h]
  rfl

theorem not_lt_of_split? (h : Bytes.split? count bytes = some (first, rest)) :
    ¬ bytes.length < count := by
  rw [← Bytes.split?_eq_none_iff, h]
  exact nofun

theorem split_of_split? (h : Bytes.split? count bytes = some (first, rest)) :
    split count bytes = .done (first, rest) := by
  rw [split, h]
  rfl

theorem front_of_split? (h : Bytes.split? count bytes = some (first, rest)) :
    front count bytes = .done first := by
  rw [front, split_of_split? h]
  rfl

theorem behind_of_split? (h : Bytes.split? count bytes = some (first, rest)) :
    behind count bytes = .done rest := by
  rw [behind, split_of_split? h]
  rfl

theorem number_of_split? (h : Bytes.split? width bytes = some (first, rest)) :
    number width bytes = .done (LittleEndian.decode first, rest) := by
  rw [number, split_of_split? h]
  rfl

theorem number_of_length (h : bytes.length = width) :
    number width bytes = .done (LittleEndian.decode bytes, []) :=
  number_of_split? (Bytes.split?_eq_some_iff.mpr ⟨(List.append_nil bytes).symm, h⟩)

theorem minus_of_le {length other : Nat} (h : other ≤ length) :
    minus length other = .done (length - other) :=
  if_pos h

end Unguarded

end TableStore

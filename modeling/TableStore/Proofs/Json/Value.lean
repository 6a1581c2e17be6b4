import TableStore.Json.Value
import TableStore.Proofs.Json.Text

/-!
# Values in JSON written and read

A tree is exact, or not deep, if its parts are. An integer is written without a fraction and a
floating point number never is, so that each value but a number that is not finite is read back
from its tree as it was. What is read from a tree is finite.
-/

-- Powers are those of the core library, whatever is imported beside it.
attribute [local instance (1100)] instPowNat

namespace TableStore

/-! ## Trees by their parts -/

namespace Json

theorem areExact_iff {items : List Json} :
    areExact items = true ↔ ∀ item ∈ items, item.isExact = true := by
  induction items with
  | nil => simp [areExact]
  | cons item more ih => simp [areExact, ih]

theorem haveExact_iff {members : List (JsonText × Json)} :
    haveExact members = true ↔
      ∀ member ∈ members, member.1.isSome = true ∧ member.2.isExact = true := by
  induction members with
  | nil => simp [haveExact]
  | cons member more ih =>
    obtain ⟨name, item⟩ := member
    simp [haveExact, ih]

theorem depthItems_le_iff {items : List Json} {limit : Nat} :
    depthItems items ≤ limit ↔ ∀ item ∈ items, item.depth ≤ limit := by
  induction items with
  | nil => simp [depthItems]
  | cons item more ih => rw [depthItems, Nat.max_le, ih, List.forall_mem_cons]

theorem depthMembers_le_iff {members : List (JsonText × Json)} {limit : Nat} :
    depthMembers members ≤ limit ↔ ∀ member ∈ members, member.2.depth ≤ limit := by
  induction members with
  | nil => simp [depthMembers]
  | cons member more ih => rw [depthMembers, Nat.max_le, ih, List.forall_mem_cons]

theorem isCanonical_ofText (text : String) : (ofText text).IsCanonical := by
  intro token htoken
  cases List.mem_singleton.mp htoken
  trivial

theorem isCanonical_ofFields {members : List (String × Json)}
    (h : ∀ member ∈ members, member.2.IsCanonical) : (ofFields members).IsCanonical := by
  apply isCanonical_object
  rw [List.forall_mem_map]
  exact fun member hmember ↦ ⟨rfl, h member hmember⟩

/-- Whether a tree that is not too deep is read back from its text. -/
structure IsFaithful (tree : Json) : Prop where
  isCanonical : tree.IsCanonical
  isExact : tree.isExact = true

theorem IsFaithful.null : IsFaithful .null where
  isCanonical := by
    intro token htoken
    cases List.mem_singleton.mp htoken
    trivial
  isExact := rfl

theorem IsFaithful.array {items : List Json} (h : ∀ item ∈ items, item.IsFaithful) :
    (Json.array items).IsFaithful where
  isCanonical := isCanonical_array fun item hitem ↦ (h item hitem).isCanonical
  isExact := areExact_iff.mpr fun item hitem ↦ (h item hitem).isExact

theorem IsFaithful.ofFields {members : List (String × Json)}
    (h : ∀ member ∈ members, member.2.IsFaithful) : (Json.ofFields members).IsFaithful where
  isCanonical := isCanonical_ofFields fun member hmember ↦ (h member hmember).isCanonical
  isExact := by
    apply haveExact_iff.mpr
    rw [List.forall_mem_map]
    exact fun member hmember ↦ ⟨rfl, (h member hmember).isExact⟩

theorem IsFaithful.isReadable {tree : Json} (h : tree.IsFaithful)
    (hdepth : tree.depth ≤ depthLimit) : tree.isReadable = true := by
  rw [Json.isReadable, h.isExact, decide_eq_true hdepth]
  rfl

end Json

namespace Value

/-! ## Finite values -/

/-- Whether a value is not a floating point number without a finite value. -/
def IsFinite (value : Value) : Prop :=
  ∀ x, value = .float x → x.isFinite = true

theorem isFinite_text (text : String) : (Value.text text).IsFinite :=
  fun _ heq ↦ by cases heq

/-- What is read from a tree is finite. -/
theorem isFinite_of_ofJson? {tree : Json} {value : Value} (h : ofJson? tree = some value) :
    value.IsFinite := by
  rintro x rfl
  match tree, h with
  | .number literal, h =>
    change ofLiteral? literal = _ at h
    rw [ofLiteral?] at h
    split at h
    · cases h
    · obtain ⟨y, hy, hxy⟩ := Option.map_eq_some_iff.mp h
      cases hxy
      exact Literal.isFinite_of_toBinary64? hy
  | .string _, h =>
    obtain ⟨_, _, heq⟩ := Option.map_eq_some_iff.mp h
    cases heq

/-! ## The tree of a value -/

theorem ofLiteral?_ofInt (n : Int64) : ofLiteral? (Literal.ofInt n.toInt) = some (.integer n) := by
  have hfits : fitsInteger n.toInt = true :=
    decide_eq_true ⟨n.le_toInt, n.toInt_lt⟩
  have hsign : (decide (n.toInt < 0) && n.toInt == 0) = false := by
    rw [Bool.and_eq_false_iff, decide_eq_false_iff_not, beq_eq_false_iff_ne]
    omega
  rw [ofLiteral?, Literal.toInt_ofInt, Literal.negative_ofInt, hsign, hfits, Int64.ofInt_toInt]
  rfl

theorem ofLiteral?_literal {x : Binary64} (h : x.isFinite = true) :
    ofLiteral? (jsonStyle.literal x) = some (.float x) := by
  rw [ofLiteral?, jsonStyle.isWhole_literal rfl h, jsonStyle.toBinary64?_literal h]
  rfl

/-- **A finite value is read back from its tree.** -/
theorem ofJson?_toJson {value : Value} (h : value.IsFinite) :
    ofJson? value.toJson = some value := by
  match value, h with
  | .integer n, _ => exact ofLiteral?_ofInt n
  | .float x, h =>
    have hx := h x rfl
    rw [toJson, if_pos hx]
    exact ofLiteral?_literal hx
  | .boolean _, _ | .text _, _ => rfl

theorem isCanonical_toJson {value : Value} (h : value.IsFinite) : value.toJson.IsCanonical := by
  match value, h with
  | .integer n, _ =>
    rintro token htoken
    cases List.mem_singleton.mp htoken
    exact Literal.isCanonical_ofInt _
  | .float x, h =>
    have hx := h x rfl
    rw [toJson, if_pos hx]
    rintro token htoken
    cases List.mem_singleton.mp htoken
    exact jsonStyle.isCanonical_literal hx
  | .boolean _, _ | .text _, _ =>
    rintro token htoken
    cases List.mem_singleton.mp htoken
    trivial

theorem isExact_toJson {value : Value} (h : value.IsFinite) : value.toJson.isExact = true := by
  match value, h with
  | .integer n, _ =>
    have hn : n.toInt.natAbs ≤ 2 ^ (63 : Nat) := by
      have hlow := n.le_toInt
      have hhigh := n.toInt_lt
      omega
    rw [toJson, Json.isExact]
    exact Literal.isSome_toBinary64?_ofInt hn
  | .float x, h =>
    have hx := h x rfl
    rw [toJson, if_pos hx, Json.isExact, jsonStyle.toBinary64?_literal hx]
    rfl
  | .boolean _, _ | .text _, _ => rfl

theorem isFaithful_toJson {value : Value} (h : value.IsFinite) : value.toJson.IsFaithful :=
  ⟨isCanonical_toJson h, isExact_toJson h⟩

/-- Values are neither arrays nor objects. -/
@[simp]
theorem depth_toJson (value : Value) : value.toJson.depth = 0 := by
  match value with
  | .integer _ | .boolean _ | .text _ => rfl
  | .float x =>
    rw [toJson]
    split <;> rfl

end Value

end TableStore

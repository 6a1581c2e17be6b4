import TableStore.Command.Run
import TableStore.Proofs.Json.Value

/-!
# Predicates in JSON written and read

A connective is written as an object with a single member, which is too few for a comparison, and a
comparison as an object with three members, which is too many for a connective. Each is therefore
read as what it was. A predicate that has been read is written no deeper than the text it came
from and has only finite numbers, so that it is read back from its own text, however it was spelled.
-/

namespace TableStore

/-! ## Comparisons -/

namespace Operator

@[simp]
theorem ofSymbol?_symbol (op : Operator) : ofSymbol? op.symbol = some op := by
  cases op <;> rfl

@[simp]
theorem ofJson?_symbol (op : Operator) : ofJson? (Json.ofText op.symbol) = some op :=
  ofSymbol?_symbol op

end Operator

namespace Comparison

/-- The members of a comparison. -/
theorem toJson_eq (comparison : Comparison) :
    comparison.toJson = .object [(some "column", Json.ofText comparison.column),
      (some "op", Json.ofText comparison.op.symbol), (some "value", comparison.value.toJson)] :=
  rfl

/-- **A comparison with a finite value is read back from its tree.** -/
theorem ofJson?_toJson {comparison : Comparison} (h : comparison.value.IsFinite) :
    ofJson? comparison.toJson = some comparison := by
  have hfields : comparison.toJson.fields? ["column", "op", "value"] =
      some [Json.ofText comparison.column, Json.ofText comparison.op.symbol,
        comparison.value.toJson] := by
    rfl
  rw [ofJson?, hfields]
  dsimp only
  rw [Operator.ofJson?_symbol, Value.ofJson?_toJson h]
  rfl

theorem isFinite_of_ofJson? {tree : Json} {comparison : Comparison}
    (h : ofJson? tree = some comparison) : comparison.value.IsFinite := by
  unfold ofJson? at h
  split at h
  · split at h
    · next hvalue =>
      cases h
      exact Value.isFinite_of_ofJson? hvalue
    · cases h
  · cases h

/-- A comparison is read from an array or an object only. -/
theorem depth_pos_of_ofJson? {tree : Json} {comparison : Comparison}
    (h : ofJson? tree = some comparison) : 1 ≤ tree.depth := by
  match tree, h with
  | .array _, _ => exact Nat.le_add_left 1 _
  | .object _, _ => exact Nat.le_add_left 1 _

end Comparison

/-! ## Predicates -/

namespace Predicate

/-- Whether all floating point numbers in a predicate are finite. -/
inductive IsFinite : Predicate → Prop where
  | compare {comparison : Comparison} (h : comparison.value.IsFinite) :
    IsFinite (.compare comparison)
  | all {conditions : List Predicate} (h : ∀ condition ∈ conditions, IsFinite condition) :
    IsFinite (.all conditions)
  | any {conditions : List Predicate} (h : ∀ condition ∈ conditions, IsFinite condition) :
    IsFinite (.any conditions)
  | not {condition : Predicate} (h : IsFinite condition) : IsFinite (.not condition)

theorem toJsonItems_eq_map (conditions : List Predicate) :
    toJsonItems conditions = conditions.map toJson := by
  induction conditions with
  | nil => rfl
  | cons condition more ih => rw [toJsonItems, ih, List.map_cons]

/-! ### From predicates to trees and back -/

theorem ofItems?_map {conditions : List Predicate}
    (h : ∀ condition ∈ conditions, ofTree? condition.toJson = some condition) :
    ofItems? (conditions.map toJson) = some conditions := by
  induction conditions with
  | nil => rfl
  | cons condition more ih =>
    obtain ⟨hcondition, hmore⟩ := List.forall_mem_cons.mp h
    rw [List.map_cons, ofItems?, hcondition, ih hmore]

/-- **A predicate with finite numbers is read back from its tree.** -/
theorem ofTree?_toJson {predicate : Predicate} (h : predicate.IsFinite) :
    ofTree? predicate.toJson = some predicate := by
  induction h with
  | @compare comparison h =>
    -- Three members are too many for a connective.
    have htree : ofTree? comparison.toJson =
        (Comparison.ofJson? comparison.toJson).map .compare := rfl
    rw [toJson, htree, Comparison.ofJson?_toJson h, Option.map_some]
  | all h ih => rw [toJson, ofTree?, toJsonItems_eq_map, ofItems?_map ih, Option.map_some]
  | any h ih => rw [toJson, ofTree?, toJsonItems_eq_map, ofItems?_map ih, Option.map_some]
  | not h ih => rw [toJson, ofTree?, ih, Option.map_some]

theorem isFaithful_toJson {predicate : Predicate} (h : predicate.IsFinite) :
    predicate.toJson.IsFaithful := by
  have hmember {name : String} {item : Json} (hitem : item.IsFaithful) :
      (Json.ofFields [(name, item)]).IsFaithful :=
    .ofFields (List.forall_mem_singleton.mpr hitem)
  induction h with
  | @compare comparison h =>
    have htext (text : String) : (Json.ofText text).IsFaithful :=
      Value.isFaithful_toJson (Value.isFinite_text text)
    apply Json.IsFaithful.ofFields
    simp only [List.forall_mem_cons]
    exact ⟨htext _, htext _, Value.isFaithful_toJson h, List.forall_mem_nil _⟩
  | all h ih =>
    rw [toJson, toJsonItems_eq_map]
    exact hmember (.array (List.forall_mem_map.mpr ih))
  | any h ih =>
    rw [toJson, toJsonItems_eq_map]
    exact hmember (.array (List.forall_mem_map.mpr ih))
  | not h ih => exact hmember ih

theorem readPredicate_of_tree {text : String} {tree : Json} {predicate : Predicate}
    (hparse : Json.parse? text = some tree) (hreadable : tree.isReadable = true)
    (htree : ofTree? tree = some predicate) : Command.readPredicate text = .ok predicate := by
  rw [Command.readPredicate, hparse]
  dsimp only [Option.bind_some]
  rw [ofJson?, if_pos hreadable, htree]

/-- **A predicate is read back from its text** if its numbers are finite and it is not nested too
deep. -/
theorem readPredicate_render {predicate : Predicate} (h : predicate.IsFinite)
    (hdepth : predicate.toJson.depth ≤ Json.depthLimit) :
    Command.readPredicate predicate.toJson.render = .ok predicate := by
  have hfaithful := isFaithful_toJson h
  exact readPredicate_of_tree (Json.parse?_render hfaithful.isCanonical)
    (hfaithful.isReadable hdepth) (ofTree?_toJson h)

/-! ### From trees to predicates -/

/-- Whether a predicate has finite numbers and is written with at most so many levels. -/
structure Fits (predicate : Predicate) (levels : Nat) : Prop where
  finite : predicate.IsFinite
  depth_le : predicate.toJson.depth ≤ levels

theorem Fits.mono {predicate : Predicate} {levels more : Nat} (h : predicate.Fits levels)
    (hle : levels ≤ more) : predicate.Fits more :=
  ⟨h.finite, Nat.le_trans h.depth_le hle⟩

theorem Fits.compare {comparison : Comparison} (h : comparison.value.IsFinite) :
    Fits (.compare comparison) 1 where
  finite := .compare h
  depth_le := by
    rw [toJson, Comparison.toJson_eq]
    apply Nat.succ_le_succ
    rw [Json.depthMembers_le_iff]
    simp [Json.ofText, Json.depth]

theorem depth_object_singleton (name : JsonText) (item : Json) :
    (Json.object [(name, item)]).depth = item.depth + 1 := by
  rw [Json.depth, Json.depthMembers, Json.depthMembers, Nat.max_zero]

theorem depth_toJsonItems_le {conditions : List Predicate} {levels : Nat}
    (h : ∀ condition ∈ conditions, condition.Fits levels) :
    (Json.array (toJsonItems conditions)).depth ≤ levels + 1 := by
  apply Nat.succ_le_succ
  rw [toJsonItems_eq_map, Json.depthItems_le_iff, List.forall_mem_map]
  exact fun condition hcondition ↦ (h condition hcondition).depth_le

theorem Fits.all {conditions : List Predicate} {levels : Nat}
    (h : ∀ condition ∈ conditions, condition.Fits levels) :
    Fits (.all conditions) (levels + 2) where
  finite := .all fun condition hcondition ↦ (h condition hcondition).finite
  depth_le := by
    rw [toJson, depth_object_singleton]
    exact Nat.succ_le_succ (depth_toJsonItems_le h)

theorem Fits.any {conditions : List Predicate} {levels : Nat}
    (h : ∀ condition ∈ conditions, condition.Fits levels) :
    Fits (.any conditions) (levels + 2) where
  finite := .any fun condition hcondition ↦ (h condition hcondition).finite
  depth_le := by
    rw [toJson, depth_object_singleton]
    exact Nat.succ_le_succ (depth_toJsonItems_le h)

theorem Fits.not {condition : Predicate} {levels : Nat} (h : condition.Fits levels) :
    Fits (.not condition) (levels + 1) where
  finite := .not h.finite
  depth_le := by
    rw [toJson, depth_object_singleton]
    exact Nat.succ_le_succ h.depth_le

/-- **What is read from a tree is finite, and written no deeper than the tree.** -/
theorem fits_of_ofTree? {tree : Json} {predicate : Predicate} (h : ofTree? tree = some predicate) :
    predicate.Fits tree.depth := by
  revert predicate
  refine ofTree?.induct (fun tree ↦ ∀ {predicate}, ofTree? tree = some predicate →
      predicate.Fits tree.depth)
    (fun items ↦ ∀ {conditions}, ofItems? items = some conditions →
      ∀ condition ∈ conditions, condition.Fits (Json.depthItems items))
    ?all ?any ?not ?comparison ?nil ?cons ?unread tree
  case all =>
    intro items ih predicate h
    obtain ⟨conditions, hconditions, rfl⟩ := Option.map_eq_some_iff.mp h
    rw [depth_object_singleton]
    exact .all (ih hconditions)
  case any =>
    intro items ih predicate h
    obtain ⟨conditions, hconditions, rfl⟩ := Option.map_eq_some_iff.mp h
    rw [depth_object_singleton]
    exact .any (ih hconditions)
  case not =>
    intro item ih predicate h
    obtain ⟨condition, hcondition, rfl⟩ := Option.map_eq_some_iff.mp h
    rw [depth_object_singleton]
    exact .not (ih hcondition)
  case comparison =>
    intro tree hand hor hnot predicate h
    rw [ofTree?.eq_4 tree hand hor hnot] at h
    obtain ⟨comparison, hcomparison, rfl⟩ := Option.map_eq_some_iff.mp h
    exact (Fits.compare (Comparison.isFinite_of_ofJson? hcomparison)).mono
      (Comparison.depth_pos_of_ofJson? hcomparison)
  case nil =>
    intro conditions h
    cases h
    exact nofun
  case cons =>
    intro item more condition conditions hmore hcondition ih ihMore read h
    rw [ofItems?, hcondition, hmore] at h
    cases h
    rw [Json.depthItems, List.forall_mem_cons]
    exact ⟨(ih hcondition).mono (Nat.le_max_left _ _),
      fun other hother ↦ (ihMore hmore other hother).mono (Nat.le_max_right _ _)⟩
  case unread =>
    intro item more hnone _ _ conditions h
    rw [ofItems?] at h
    split at h
    · next hcondition hmore => exact (hnone _ _ hcondition hmore).elim
    · cases h

theorem exists_tree_of_readPredicate {text : String} {predicate : Predicate}
    (h : Command.readPredicate text = .ok predicate) :
    ∃ tree : Json, tree.depth ≤ Json.depthLimit ∧ ofTree? tree = some predicate := by
  unfold Command.readPredicate at h
  split at h
  · next hread =>
    cases h
    obtain ⟨tree, _, htree⟩ := Option.bind_eq_some_iff.mp hread
    unfold ofJson? at htree
    split at htree
    · next hreadable =>
      rw [Json.isReadable, Bool.and_eq_true, decide_eq_true_eq] at hreadable
      exact ⟨tree, hreadable.2, htree⟩
    · cases htree
  · cases h

/-- **A predicate that has been read is read back from its own text**, and so is every predicate
with finite numbers and at most 127 levels. -/
theorem readPredicate_toJson_render :
    (∀ predicate : Predicate, predicate.IsFinite → predicate.toJson.depth ≤ 127 →
      Command.readPredicate predicate.toJson.render = .ok predicate) ∧
    ∀ (text : String) (predicate : Predicate), Command.readPredicate text = .ok predicate →
      Command.readPredicate predicate.toJson.render = .ok predicate := by
  refine ⟨fun predicate hfinite hdepth ↦ readPredicate_render hfinite hdepth, ?_⟩
  intro text predicate h
  obtain ⟨tree, hreadable, htree⟩ := exists_tree_of_readPredicate h
  have hfits := fits_of_ofTree? htree
  exact readPredicate_render hfits.finite (Nat.le_trans hfits.depth_le hreadable)

/-- A comparison given as an array, with an alias for the operator in an object, and two
connectives around the comparison that is read. -/
theorem readPredicate_toJson_render_neq :
    let text := "[\"price\",\x7b\"$neq\":null\x7d,0.1]"
    let comparison : Comparison := ⟨"price", .ne, .float ⟨0x3FB999999999999A⟩⟩
    let around : Predicate := .not (.any [.compare comparison, .all []])
    (Command.readPredicate text = .ok (.compare comparison) ∧
      Command.readPredicate (Predicate.compare comparison).toJson.render =
        .ok (.compare comparison)) ∧
    around.IsFinite ∧ around.toJson.depth ≤ 127 ∧
      Command.readPredicate around.toJson.render = .ok around := by
  intro text comparison around
  have hread : Command.readPredicate text = .ok (.compare comparison) := by
    let tree : Json := .array [.string (some "price"), .object [(some "$neq", .null)],
      .number ⟨false, [0], [1], none⟩]
    have htokens : Json.Token.ofChars text.toList = some tree.tokens := by decide +kernel
    have hcomparison : Comparison.ofJson? tree = some comparison := by decide +kernel
    have htree : ofTree? tree = (Comparison.ofJson? tree).map .compare := rfl
    exact readPredicate_of_tree (Json.parse?_of_ofChars htokens) (by decide +kernel)
      (by rw [htree, hcomparison]; rfl)
  have hvalue : comparison.value.IsFinite := by
    rintro x ⟨⟩
    decide
  have haround : around.IsFinite :=
    .not (.any (List.forall_mem_cons.mpr
      ⟨.compare hvalue, List.forall_mem_singleton.mpr (.all nofun)⟩))
  have hdepth : around.toJson.depth ≤ 127 := by decide +kernel
  exact ⟨⟨hread, readPredicate_toJson_render.2 text _ hread⟩, haround, hdepth,
    readPredicate_toJson_render.1 around haround hdepth⟩

end Predicate

end TableStore

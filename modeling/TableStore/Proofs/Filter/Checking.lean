import TableStore.Proofs.Filter.Typing
import TableStore.Proofs.FirstFailure
import TableStore.Table.Basic

/-!
# What the check of a predicate refuses

Checking a predicate is going through its comparisons from left to right. How they are put together
does not matter: a comparison counts below any number of negations, and where evaluation would never
come to it. So the check passes if every comparison fits the schema, and else fails with the fault
of the first that does not. A filter that fails so has not looked at any record, whatever is on the
disk.
-/

namespace TableStore

theorem ColumnType.isComparable_iff {stored literal : ColumnType} :
    stored.IsComparable literal ↔
      (stored == literal || (stored.isNumeric && literal.isNumeric)) = true := by
  simp [IsComparable]

theorem Operator.isOrdering_iff {op : Operator} : op.isOrdering = true ↔ op ≠ .eq ∧ op ≠ .ne := by
  cases op <;> decide

/-! ## One comparison -/

namespace Comparison

variable {schema : Schema} {comparison : Comparison} {e : Failure}

/-- Whether a comparison fits a schema: it names a column, its literal is of the column's type or
both are numbers, and truth values are compared for equality only. -/
def Fits (schema : Schema) (comparison : Comparison) : Prop :=
  ∃ column, schema.column? comparison.column = some column ∧
    column.type.IsComparable comparison.value.type ∧
    (column.type = .boolean → comparison.op = .eq ∨ comparison.op = .ne)

/-- What a comparison that does not fit a schema is refused for: its column first, then its literal,
and then its operator. -/
inductive Offends (schema : Schema) (comparison : Comparison) : Failure → Prop where
  | column (unknown : ∀ column ∈ schema.columns, column.name ≠ comparison.column) :
      Offends schema comparison (.unknownColumn comparison.column)
  | literal {column : Column} (known : schema.column? comparison.column = some column)
      (incomparable : ¬ column.type.IsComparable comparison.value.type) :
      Offends schema comparison
        (.typeMismatch comparison.column column.type comparison.value.type)
  | operator {column : Column} (known : schema.column? comparison.column = some column)
      (comparable : column.type.IsComparable comparison.value.type)
      (boolean : column.type = .boolean) (ordering : comparison.op ≠ .eq ∧ comparison.op ≠ .ne) :
      Offends schema comparison (.unsupportedOperator comparison.column comparison.op .boolean)

theorem fits_or_exists_offends (schema : Schema) (comparison : Comparison) :
    comparison.Fits schema ∨ ∃ e, comparison.Offends schema e := by
  cases hcolumn : schema.column? comparison.column with
  | none =>
    refine .inr ⟨_, .column fun column hmem hname ↦ ?_⟩
    exact List.find?_eq_none.mp hcolumn column hmem (beq_iff_eq.mpr hname)
  | some column =>
    by_cases hcomparable : column.type.IsComparable comparison.value.type
    · by_cases hordering : column.type = .boolean ∧ comparison.op ≠ .eq ∧ comparison.op ≠ .ne
      · exact .inr ⟨_, .operator hcolumn hcomparable hordering.1 hordering.2⟩
      · refine .inl ⟨column, hcolumn, hcomparable, fun hboolean ↦ ?_⟩
        by_cases heq : comparison.op = .eq
        · exact .inl heq
        · exact .inr (Decidable.not_not.mp fun hne ↦ hordering ⟨hboolean, heq, hne⟩)
    · exact .inr ⟨_, .literal hcolumn hcomparable⟩

theorem Fits.check_eq (h : comparison.Fits schema) : comparison.check schema = .ok () := by
  obtain ⟨column, hcolumn, hcomparable, hoperator⟩ := h
  have hliteral := ColumnType.isComparable_iff.mp hcomparable
  have hboolean : ¬ (column.type == .boolean && comparison.op.isOrdering) = true := by
    rw [Bool.and_eq_true, beq_iff_eq, Operator.isOrdering_iff]
    rintro ⟨htype, heq, hne⟩
    rcases hoperator htype with h | h
    · exact heq h
    · exact hne h
  rw [check, hcolumn]
  dsimp only
  rw [hliteral, Bool.not_true, if_neg Bool.false_ne_true, if_neg hboolean]

theorem Offends.check_eq (h : comparison.Offends schema e) :
    comparison.check schema = .error e := by
  cases h with
  | column hunknown =>
    have hnone : schema.column? comparison.column = none :=
      List.find?_eq_none.mpr fun column hmem hname ↦ hunknown column hmem (beq_iff_eq.mp hname)
    rw [check, hnone]
  | literal hcolumn hincomparable =>
    rw [ColumnType.isComparable_iff, Bool.not_eq_true] at hincomparable
    rw [check, hcolumn]
    dsimp only
    rw [hincomparable, Bool.not_false, if_pos rfl]
  | @operator column hcolumn hcomparable htype hordering =>
    have hliteral := ColumnType.isComparable_iff.mp hcomparable
    have hboolean : (column.type == .boolean && comparison.op.isOrdering) = true := by
      rw [htype, Operator.isOrdering_iff.mpr hordering]
      rfl
    rw [check, hcolumn]
    dsimp only
    rw [hliteral, Bool.not_true, if_neg Bool.false_ne_true, if_pos hboolean]

/-- **A comparison is accepted exactly if it fits.** -/
theorem check_eq_ok_iff : comparison.check schema = .ok () ↔ comparison.Fits schema := by
  refine ⟨fun h ↦ ?_, Fits.check_eq⟩
  rcases fits_or_exists_offends schema comparison with hfits | ⟨e, hoffends⟩
  · exact hfits
  · rw [hoffends.check_eq] at h
    cases h

/-- **A comparison is refused for what offends in it.** -/
theorem check_eq_error_iff : comparison.check schema = .error e ↔ comparison.Offends schema e := by
  refine ⟨fun h ↦ ?_, Offends.check_eq⟩
  rcases fits_or_exists_offends schema comparison with hfits | ⟨first, hoffends⟩
  · rw [hfits.check_eq] at h
    cases h
  · rw [hoffends.check_eq] at h
    cases h
    exact hoffends

end Comparison

/-! ## Whole predicates -/

namespace Predicate

mutual

/-- A predicate fails the check as the first of its comparisons that does. -/
theorem check_eq_error_iff (schema : Schema) (e : Failure) : ∀ predicate : Predicate,
    predicate.check schema = .error e ↔
      IsFirstFailure (Comparison.check schema) predicate.leaves e
  | .compare comparison => by
    rw [check, leaves, isFirstFailure_singleton]
  | .all conditions | .any conditions => by
    rw [check, leaves]
    exact checkAll_eq_error_iff schema e conditions
  | .not condition => by
    rw [check, leaves]
    exact check_eq_error_iff schema e condition

theorem checkAll_eq_error_iff (schema : Schema) (e : Failure) : ∀ conditions : List Predicate,
    checkAll schema conditions = .error e ↔
      IsFirstFailure (Comparison.check schema) (leavesOfAll conditions) e
  | [] => by
    rw [checkAll, leavesOfAll]
    exact iff_of_false nofun not_isFirstFailure_nil
  | condition :: rest => by
    have hfront : (∀ leaf ∈ condition.leaves, ∃ u, Comparison.check schema leaf = .ok u) ↔
        condition.check schema = .ok () := by
      rw [check_eq_ok_iff]
      exact forall₂_congr fun _ _ ↦ ⟨fun ⟨(), h⟩ ↦ h, fun h ↦ ⟨(), h⟩⟩
    rw [checkAll, leavesOfAll, isFirstFailure_append, hfront,
      ← check_eq_error_iff schema e condition, ← checkAll_eq_error_iff schema e rest]
    cases condition.check schema <;> simp

end

/-- Predicates with the same comparisons pass or fail alike, however they are put together. -/
theorem check_congr {schema : Schema} {predicate other : Predicate}
    (h : other.leaves = predicate.leaves) : other.check schema = predicate.check schema := by
  cases hcheck : predicate.check schema with
  | error e =>
    rw [check_eq_error_iff, ← h] at hcheck
    exact (check_eq_error_iff schema e other).mpr hcheck
  | ok _ =>
    rw [check_eq_ok_iff, ← h] at hcheck
    exact (check_eq_ok_iff schema other).mpr hcheck

/-- How the check of a predicate goes, and what depends on it. -/
structure IsChecked (schema : Schema) (predicate : Predicate) : Prop where
  /-- A predicate passes if all its comparisons fit, -/
  succeeds_iff : predicate.check schema = .ok () ↔ ∀ leaf ∈ predicate.leaves, leaf.Fits schema
  /-- and fails with what offends in the first that does not. -/
  fails_iff : ∀ e, predicate.check schema = .error e ↔
    ∃ before leaf after, predicate.leaves = before ++ leaf :: after ∧
      (∀ earlier ∈ before, earlier.Fits schema) ∧ leaf.Offends schema e
  /-- How its comparisons are put together does not matter. -/
  alike : ∀ other : Predicate, other.leaves = predicate.leaves →
    other.check schema = predicate.check schema
  /-- A filter fails in the same way on every table with the schema, whatever is on the disk. -/
  filter : ∀ e, predicate.check schema = .error e → ∀ (table : Table) (disk : Disk),
    table.schema = schema → table.filter disk predicate = .error e
  /-- An evaluation fails in the same way on every item, and in no other. -/
  evaluate : ∀ item, predicate.evaluate schema item =
    (predicate.check schema).map fun _ ↦ predicate.holds item

/-- **A predicate is refused for its first comparison that does not fit the schema**, and for
nothing else. -/
theorem isChecked (schema : Schema) (predicate : Predicate) : IsChecked schema predicate where
  succeeds_iff := by
    rw [check_eq_ok_iff]
    exact forall₂_congr fun _ _ ↦ Comparison.check_eq_ok_iff
  fails_iff := by
    intro e
    rw [check_eq_error_iff]
    constructor
    · rintro ⟨before, leaf, after, hsplit, hbefore, hleaf⟩
      refine ⟨before, leaf, after, hsplit, ?_, Comparison.check_eq_error_iff.mp hleaf⟩
      intro earlier hearlier
      obtain ⟨_, hchecked⟩ := hbefore earlier hearlier
      exact Comparison.check_eq_ok_iff.mp hchecked
    · rintro ⟨before, leaf, after, hsplit, hbefore, hleaf⟩
      refine ⟨before, leaf, after, hsplit, ?_, hleaf.check_eq⟩
      exact fun earlier hearlier ↦ ⟨(), (hbefore earlier hearlier).check_eq⟩
  alike _ := check_congr
  filter := by
    rintro e hcheck table disk rfl
    rw [Table.filter, hcheck]
  evaluate := by
    intro item
    rw [Predicate.evaluate]
    cases predicate.check schema <;> rfl

/-- A comparison counts below negations and behind a condition that always holds. -/
example : check RecordFormat.ordersSchema
    (.any [.all [], .not (.not (.compare ⟨"paid", .lt, .boolean true⟩)),
      .compare ⟨"price", .eq, .integer 1⟩]) =
    .error (.unsupportedOperator "paid" .lt .boolean) := by
  rfl

end Predicate

end TableStore

import Mathlib.Data.List.Nodup
import TableStore.Filter.Evaluate
import TableStore.Proofs.Number.Literal
import TableStore.Proofs.Record.Canonical

/-!
# Checked predicates on typed items

A predicate is checked once against a schema, and then evaluated on items that come from elsewhere.
If each value of an item has the type of its column, the check has made sure that no comparison
meets types that cannot be compared, and that truth values are compared for equality only. So the
only way to have no order is a NaN, and the operators go together as they do for numbers, texts and
truth values: one of less, equal and greater holds, and the others are their negations.
-/

-- Powers are those of the core library, whatever is imported beside it.
attribute [local instance (1100)] instPowNat

namespace TableStore

/-! ## Values -/

/-- Whether values of two types can be compared. -/
def ColumnType.IsComparable (stored literal : ColumnType) : Prop :=
  stored = literal ∨ stored.isNumeric = true ∧ literal.isNumeric = true

namespace Value

/-- Whether a value is a floating point number that is a NaN. -/
def isNaN : Value → Bool
  | .float x => x.isNaN
  | .integer _ | .boolean _ | .text _ => false

theorem isNaN_ofInt (n : Int64) : (Binary64.ofInt n.toInt).isNaN = false := by
  have hn : n.toInt.natAbs ≤ 2 ^ (63 : Nat) := by
    have hlow := n.le_toInt
    have hhigh := n.toInt_lt
    omega
  exact Binary64.isNaN_of_isFinite (Binary64.isFinite_ofInt hn)

/-- **Two values have no order exactly if one is a NaN or their types cannot be compared.** -/
theorem compare?_eq_none_iff {stored literal : Value} :
    stored.compare? literal = none ↔
      stored.isNaN = true ∨ literal.isNaN = true ∨ ¬ stored.type.IsComparable literal.type := by
  cases stored <;> cases literal <;>
    simp [compare?, isNaN, type, ColumnType.IsComparable, ColumnType.isNumeric,
      Binary64.compare?_eq_none_iff, isNaN_ofInt]

end Value

/-! ## Items -/

/-- Whether an item has values in columns of a schema only, and each of them is of its column's
type. -/
def Schema.Admits (schema : Schema) (item : Item) : Prop :=
  ∀ name value, item[name]? = some value →
    ∃ column, schema.column? name = some column ∧ value.type = column.type

/-- Whether no two columns of a schema have one name and different types. -/
def Schema.IsUnambiguous (schema : Schema) : Prop :=
  ∀ column ∈ schema.columns, ∀ other ∈ schema.columns, column.name = other.name →
    column.type = other.type

/-- A valid schema has no two columns of one name at all. -/
theorem Schema.isUnambiguous_of_validate {schema : Schema} (h : schema.validate = .ok ()) :
    schema.IsUnambiguous := by
  intro column hcolumn other hother hname
  have hsame : column = other := List.inj_on_of_nodup_map
    (isValid_of_validate h).column_names_distinct hcolumn hother hname
  rw [hsame]

/-- In an unambiguous schema the first column of a name tells the type of all of them. -/
theorem Schema.IsUnambiguous.exists_column {schema : Schema} (h : schema.IsUnambiguous)
    {column : Column} (hcolumn : column ∈ schema.columns) :
    ∃ first, schema.column? column.name = some first ∧ column.type = first.type := by
  cases hfirst : schema.column? column.name with
  | none =>
    exact absurd (beq_self_eq_true column.name) (List.find?_eq_none.mp hfirst column hcolumn)
  | some first =>
    have hname : first.name = column.name := by simpa using List.find?_some hfirst
    exact ⟨first, rfl, h _ hcolumn _ (List.mem_of_find?_eq_some hfirst) hname.symm⟩

namespace RecordFormat

/-- Every value that is read is of the type of a column with its name. -/
theorem type_of_readFields {marked : List (Column × Bool)} {start item : Item} {bytes rest : Bytes}
    (h : readFields start marked bytes = .ok (item, rest)) {name : String} {value : Value}
    (hvalue : item[name]? = some value) :
    start[name]? = some value ∨
      ∃ entry ∈ marked, entry.1.name = name ∧ value.type = entry.1.type := by
  induction marked generalizing start bytes with
  | nil =>
    cases h
    exact .inl hvalue
  | cons entry others ih =>
    obtain ⟨column, mark⟩ := entry
    cases mark with
    | false =>
      rcases ih h with hstart | ⟨other, hother, hname, htype⟩
      · exact .inl hstart
      · exact .inr ⟨other, by simp [hother], hname, htype⟩
    | true =>
      rw [readFields] at h
      split at h
      · cases h
      · next read behind hread =>
        rcases ih h with hstart | ⟨other, hother, hname, htype⟩
        · rw [Std.ExtTreeMap.getElem?_insert] at hstart
          split at hstart
          · next hname =>
            cases hstart
            obtain ⟨htype, _⟩ := Field.encode_of_read hread
            exact .inr ⟨(column, true), by simp, Std.LawfulEqCmp.compare_eq_iff_eq.mp hname, htype⟩
          · exact .inl hstart
        · exact .inr ⟨other, by simp [hother], hname, htype⟩

/-- **A schema admits the items that are read from records**, if it is unambiguous. -/
theorem admits_of_decode {schema : Schema} (hschema : schema.IsUnambiguous) {format : RecordFormat}
    (hformat : ofSchema schema = .ok format) {record : Bytes} {item : Item}
    (h : format.decode record = .ok item) : schema.Admits item := by
  intro name value hvalue
  obtain ⟨bitmap, written, _, hfields⟩ := of_read_eq_ok (read_of_decode h)
  rcases type_of_readFields hfields hvalue with hstart | ⟨entry, hentry, rfl, htype⟩
  · rw [Std.ExtTreeMap.getElem?_empty] at hstart
    cases hstart
  · have hcolumn : entry.1 ∈ schema.columns := by
      rw [← (of_ofSchema_eq_ok hformat).1]
      exact (List.of_mem_zip (a := entry.1) (b := entry.2) hentry).1
    obtain ⟨first, hfirst, hsame⟩ := hschema.exists_column hcolumn
    exact ⟨first, hfirst, htype.trans hsame⟩

end RecordFormat

/-! ## Operators -/

namespace Operator

/-- Of less, equal and greater one is the order. -/
theorem exists_accepts (order : Ordering) :
    ∃ op ∈ [Operator.lt, .eq, .gt], ∀ other ∈ [Operator.lt, .eq, .gt],
      other.accepts (some order) = true ↔ other = op := by
  cases order with
  | lt => exact ⟨.lt, by decide, by decide⟩
  | eq => exact ⟨.eq, by decide, by decide⟩
  | gt => exact ⟨.gt, by decide, by decide⟩

theorem accepts_lte (order : Ordering) : lte.accepts (some order) = !gt.accepts (some order) := by
  cases order <;> rfl

theorem accepts_gte (order : Ordering) : gte.accepts (some order) = !lt.accepts (some order) := by
  cases order <;> rfl

/-- Without an order there is only difference. -/
theorem accepts_none_iff {op : Operator} : op.accepts none = true ↔ op = .ne := by
  cases op <;> decide

end Operator

/-! ## Comparisons -/

namespace Comparison

variable {schema : Schema} {item : Item} {comparison : Comparison} {stored : Value}

/-- What a comparison that has been checked may be about. -/
theorem of_check_eq_ok (h : comparison.check schema = .ok ()) :
    ∃ column, schema.column? comparison.column = some column ∧
      column.type.IsComparable comparison.value.type ∧
      (comparison.op.isOrdering = true → column.type ≠ .boolean) := by
  unfold check at h
  split at h
  · cases h
  · next column hcolumn =>
    dsimp only at h
    split at h
    · cases h
    · next hcomparable =>
      split at h
      · cases h
      · next hboolean =>
        refine ⟨column, hcolumn, ?_, ?_⟩
        · simpa [ColumnType.IsComparable, Decidable.or_iff_not_imp_left] using hcomparable
        · intro hordering htype
          exact hboolean (by rw [htype, hordering]; rfl)

/-- The same comparison with another operator. -/
def withOp (comparison : Comparison) (op : Operator) : Comparison :=
  { comparison with op }

theorem holds_withOp (h : item[comparison.column]? = some stored) (op : Operator) :
    (comparison.withOp op).holds item = op.accepts (stored.compare? comparison.value) := by
  have hcolumn : item[(comparison.withOp op).column]? = some stored := h
  rw [holds, hcolumn]
  rfl

/-- How a comparison goes with the value that an item has in its column. -/
structure IsSoundFor (item : Item) (comparison : Comparison) (stored : Value) : Prop where
  /-- The value and the literal can be compared, -/
  comparable : stored.type.IsComparable comparison.value.type
  /-- truth values are not put in order, -/
  boolean : comparison.op.isOrdering = true →
    stored.type ≠ .boolean ∧ comparison.value.type ≠ .boolean
  /-- and there is an order unless the value or the literal is a NaN. -/
  unordered_iff : stored.compare? comparison.value = none ↔
    stored.isNaN = true ∨ comparison.value.isNaN = true
  /-- Being different is not being equal. -/
  ne : (comparison.withOp .ne).holds item = !(comparison.withOp .eq).holds item
  /-- Without a NaN the value is less, equal or greater, and only one of these, -/
  trichotomy : stored.isNaN = false → comparison.value.isNaN = false →
    ∃ op ∈ [Operator.lt, .eq, .gt], ∀ other ∈ [Operator.lt, .eq, .gt],
      (comparison.withOp other).holds item = true ↔ other = op
  /-- and it is less or equal, or greater or equal, if it is not greater, or less. -/
  lte : stored.isNaN = false → comparison.value.isNaN = false →
    (comparison.withOp .lte).holds item = !(comparison.withOp .gt).holds item
  gte : stored.isNaN = false → comparison.value.isNaN = false →
    (comparison.withOp .gte).holds item = !(comparison.withOp .lt).holds item
  /-- With a NaN it is different and nothing else. -/
  nan : stored.isNaN = true ∨ comparison.value.isNaN = true → ∀ op,
    (comparison.withOp op).holds item = true ↔ op = .ne

/-- How a comparison goes with an item. -/
structure IsSoundOn (comparison : Comparison) (item : Item) : Prop where
  /-- Nothing holds of a value that is not there. -/
  absent : item[comparison.column]? = none → ∀ op, (comparison.withOp op).holds item = false
  present : ∀ stored, item[comparison.column]? = some stored → comparison.IsSoundFor item stored

/-- Types that can be compared are what the operators need. -/
theorem isSoundFor_of_isComparable (hstored : item[comparison.column]? = some stored)
    (hcomparable : stored.type.IsComparable comparison.value.type)
    (hboolean : comparison.op.isOrdering = true → stored.type ≠ .boolean) :
    comparison.IsSoundFor item stored := by
  have hunordered : stored.compare? comparison.value = none ↔
      stored.isNaN = true ∨ comparison.value.isNaN = true := by
    simp [Value.compare?_eq_none_iff, hcomparable]
  have hordered (hstoredNaN : stored.isNaN = false) (hliteralNaN : comparison.value.isNaN = false) :
      ∃ order, stored.compare? comparison.value = some order := by
    apply Option.ne_none_iff_exists'.mp
    rw [ne_eq, hunordered, hstoredNaN, hliteralNaN]
    simp
  constructor
  case comparable => exact hcomparable
  case boolean =>
    intro hordering
    refine ⟨hboolean hordering, ?_⟩
    -- A literal that is a truth value can be compared with truth values only.
    intro hliteral
    rw [hliteral] at hcomparable
    rcases hcomparable with heq | ⟨_, hnumeric⟩
    · exact hboolean hordering heq
    · cases hnumeric
  case unordered_iff => exact hunordered
  case ne =>
    rw [holds_withOp hstored, holds_withOp hstored]
    rfl
  case trichotomy =>
    intro hstoredNaN hliteralNaN
    obtain ⟨order, horder⟩ := hordered hstoredNaN hliteralNaN
    simp only [holds_withOp hstored, horder]
    exact Operator.exists_accepts order
  case lte =>
    intro hstoredNaN hliteralNaN
    obtain ⟨order, horder⟩ := hordered hstoredNaN hliteralNaN
    rw [holds_withOp hstored, holds_withOp hstored, horder, Operator.accepts_lte]
  case gte =>
    intro hstoredNaN hliteralNaN
    obtain ⟨order, horder⟩ := hordered hstoredNaN hliteralNaN
    rw [holds_withOp hstored, holds_withOp hstored, horder, Operator.accepts_gte]
  case nan =>
    intro hnan op
    rw [holds_withOp hstored, hunordered.mpr hnan, Operator.accepts_none_iff]

/-- **A comparison that has been checked is sound on every item that the schema admits.** -/
theorem isSoundOn_of_check (hcheck : comparison.check schema = .ok ())
    (hitem : schema.Admits item) :
    comparison.IsSoundOn item where
  absent hnone op := by
    have hcolumn : item[(comparison.withOp op).column]? = none := hnone
    rw [holds, hcolumn]
  present stored hstored := by
    obtain ⟨column, hcolumn, hcomparable, hboolean⟩ := of_check_eq_ok hcheck
    obtain ⟨admitted, hadmitted, htype⟩ := hitem _ _ hstored
    rw [hcolumn] at hadmitted
    cases hadmitted
    rw [← htype] at hcomparable hboolean
    exact isSoundFor_of_isComparable hstored hcomparable hboolean

end Comparison

/-! ## Predicates -/

namespace Predicate

mutual

/-- The comparisons in a predicate, from left to right. -/
def leaves : Predicate → List Comparison
  | .compare comparison => [comparison]
  | .all conditions => leavesOfAll conditions
  | .any conditions => leavesOfAll conditions
  | .not condition => leaves condition

/-- The comparisons in predicates. -/
def leavesOfAll : List Predicate → List Comparison
  | [] => []
  | condition :: rest => leaves condition ++ leavesOfAll rest

end

mutual

/-- A predicate passes the check if its comparisons do. -/
theorem check_eq_ok_iff (schema : Schema) : ∀ predicate : Predicate,
    predicate.check schema = .ok () ↔ ∀ leaf ∈ predicate.leaves, leaf.check schema = .ok ()
  | .compare comparison => by
    rw [check, leaves, List.forall_mem_singleton]
  | .all conditions | .any conditions => by
    rw [check, leaves]
    exact checkAll_eq_ok_iff schema conditions
  | .not condition => by
    rw [check, leaves]
    exact check_eq_ok_iff schema condition

theorem checkAll_eq_ok_iff (schema : Schema) : ∀ conditions : List Predicate,
    checkAll schema conditions = .ok () ↔
      ∀ leaf ∈ leavesOfAll conditions, leaf.check schema = .ok ()
  | [] => by
    rw [checkAll, leavesOfAll]
    simp
  | condition :: rest => by
    rw [checkAll, leavesOfAll, List.forall_mem_append, ← check_eq_ok_iff schema condition,
      ← checkAll_eq_ok_iff schema rest]
    cases condition.check schema <;> simp

end

mutual

/-- Whether a predicate holds is decided by its comparisons. -/
theorem holds_congr {item other : Item} : ∀ {predicate : Predicate},
    (∀ leaf ∈ predicate.leaves, leaf.holds item = leaf.holds other) →
      predicate.holds item = predicate.holds other
  | .compare comparison, h => h comparison (List.mem_singleton_self _)
  | .all _, h => allHold_congr h
  | .any _, h => someHolds_congr h
  | .not _, h => congrArg (!·) (holds_congr h)

theorem allHold_congr {item other : Item} : ∀ {conditions : List Predicate},
    (∀ leaf ∈ leavesOfAll conditions, leaf.holds item = leaf.holds other) →
      allHold item conditions = allHold other conditions
  | [], _ => rfl
  | condition :: rest, h => by
    rw [leavesOfAll, List.forall_mem_append] at h
    rw [allHold, allHold, holds_congr h.1, allHold_congr h.2]

theorem someHolds_congr {item other : Item} : ∀ {conditions : List Predicate},
    (∀ leaf ∈ leavesOfAll conditions, leaf.holds item = leaf.holds other) →
      someHolds item conditions = someHolds other conditions
  | [], _ => rfl
  | condition :: rest, h => by
    rw [leavesOfAll, List.forall_mem_append] at h
    rw [someHolds, someHolds, holds_congr h.1, someHolds_congr h.2]

end

/-- What a check against a schema makes sure of. -/
structure IsSoundFor (schema : Schema) (predicate : Predicate) : Prop where
  /-- Whether the predicate holds is decided by its comparisons, -/
  decided : ∀ item other, (∀ leaf ∈ predicate.leaves, leaf.holds item = leaf.holds other) →
    predicate.holds item = predicate.holds other
  /-- and these are sound on the items that the schema admits, -/
  admitted : ∀ item, schema.Admits item → ∀ leaf ∈ predicate.leaves, leaf.IsSoundOn item
  /-- which are all that are read from records, if the schema is unambiguous. -/
  decoded : schema.IsUnambiguous → ∀ format record item, RecordFormat.ofSchema schema = .ok format →
    format.decode record = .ok item → schema.Admits item

/-- **A predicate that has passed the check is sound.** On an item that the schema admits none of
its comparisons meets types that cannot be compared or puts truth values in order. -/
theorem isSoundFor_of_check {schema : Schema} {predicate : Predicate}
    (h : predicate.check schema = .ok ()) : IsSoundFor schema predicate where
  decided _ _ := holds_congr
  admitted _ hitem leaf hleaf :=
    Comparison.isSoundOn_of_check ((check_eq_ok_iff schema predicate).mp h leaf hleaf) hitem
  decoded hschema _ _ _ hformat hdecode :=
    RecordFormat.admits_of_decode hschema hformat hdecode

/-- A condition on orders that compares numbers of both types with each other, a truth value and a
text. -/
def orderCondition : Predicate :=
  .all [.compare ⟨"weight", .lt, .integer 3⟩,
    .any [.not (.compare ⟨"paid", .eq, .boolean true⟩), .compare ⟨"note", .gte, .text "a"⟩],
    .compare ⟨"id", .ne, .float ⟨0x4004000000000000⟩⟩]

/-- An order whose weight is a NaN, and of which it is not known whether it is paid. -/
def weightlessOrder : Item :=
  (((∅ : Item).insert "note" (.text "ö")).insert "id" (.integer (-7))).insert "weight"
    (.float ⟨0x7FF8000000000001⟩)

/-- The condition is sound on this order, which is read from a record. -/
theorem isSoundFor_of_check_orders :
    orderCondition.check RecordFormat.ordersSchema = .ok () ∧
      ∃ format, RecordFormat.ofSchema RecordFormat.ordersSchema = .ok format ∧
        format.decode RecordFormat.orderRecord = .ok weightlessOrder ∧
        ∀ leaf ∈ orderCondition.leaves, leaf.IsSoundOn weightlessOrder := by
  have hcheck : orderCondition.check RecordFormat.ordersSchema = .ok () := by rfl
  have hvalid : RecordFormat.ordersSchema.validate = .ok () := by rfl
  have hformat : RecordFormat.ofSchema RecordFormat.ordersSchema =
      .ok ⟨RecordFormat.ordersSchema.columns, 1, by decide⟩ := by rfl
  have hdecode : RecordFormat.decode ⟨RecordFormat.ordersSchema.columns, 1, by decide⟩
      RecordFormat.orderRecord = .ok weightlessOrder := by rfl
  have hsound := isSoundFor_of_check hcheck
  exact ⟨hcheck, _, hformat, hdecode, hsound.admitted _
    (hsound.decoded (Schema.isUnambiguous_of_validate hvalid) _ _ _ hformat hdecode)⟩

/-- A schema with two columns of one name. It is not valid, but it has a format. -/
def doubledSchema : Schema :=
  ⟨"t", [⟨"id", .integer⟩, ⟨"a", .integer⟩, ⟨"a", .text⟩], "id"⟩

/-- A record with both of these columns, the one 1 and the other "x". -/
def doubledRecord : Bytes :=
  [22, 0, 0, 0, 7, 1, 0, 0, 0, 0, 0, 0, 0, 1, 0, 0, 0, 0, 0, 0, 0, 1, 0, 0, 0, 120]

/-- What is read from it: the later column has replaced the earlier one. -/
def doubledItem : Item :=
  (((∅ : Item).insert "id" (.integer 1)).insert "a" (.integer 1)).insert "a" (.text "x")

/-- That the column is less than, equal to or greater than 1. -/
def doubledCondition : Predicate :=
  .any [.compare ⟨"a", .lt, .integer 1⟩, .compare ⟨"a", .eq, .integer 1⟩,
    .compare ⟨"a", .gt, .integer 1⟩]

/-- **Without an unambiguous schema an item that is read can be beyond what has been checked.**
Types are compared that cannot be, so that nothing is a NaN and yet none of the three holds. -/
theorem not_isSoundOn_of_decode_doubled :
    doubledCondition.check doubledSchema = .ok () ∧
      ∃ format, RecordFormat.ofSchema doubledSchema = .ok format ∧
        format.decode doubledRecord = .ok doubledItem ∧
        (∃ stored, doubledItem["a"]? = some stored ∧ stored.isNaN = false ∧
          ¬ stored.type.IsComparable .integer ∧ stored.compare? (.integer 1) = none) ∧
        doubledCondition.holds doubledItem = false ∧
        ∀ leaf ∈ doubledCondition.leaves, ¬ leaf.IsSoundOn doubledItem := by
  have hcheck : doubledCondition.check doubledSchema = .ok () := by rfl
  have hformat : RecordFormat.ofSchema doubledSchema =
      .ok ⟨doubledSchema.columns, 0, by decide⟩ := by rfl
  have hdecode : RecordFormat.decode ⟨doubledSchema.columns, 0, by decide⟩ doubledRecord =
      .ok doubledItem := by rfl
  have hstored : doubledItem["a"]? = some (.text "x") := by rfl
  have htypes : ¬ ColumnType.IsComparable .text .integer := by
    simp [ColumnType.IsComparable, ColumnType.isNumeric]
  refine ⟨hcheck, _, hformat, hdecode, ⟨_, hstored, rfl, htypes, rfl⟩, by rfl, ?_⟩
  intro leaf hleaf hsound
  simp only [doubledCondition, leaves, leavesOfAll, List.cons_append, List.nil_append,
    List.mem_cons, List.not_mem_nil, or_false] at hleaf
  rcases hleaf with rfl | rfl | rfl
  all_goals exact htypes (hsound.present _ hstored).comparable

end Predicate

end TableStore

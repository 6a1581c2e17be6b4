import TableStore.Proofs.Record.Key
import TableStore.Proofs.Table.Ledger

/-!
# Two ways to find a key

An item can be found through the index, by the bytes of its key, and by a filter that compares the
key of every item with a value. The two agree, for a value other than a floating point number is
determined by its bytes and is in order with no other value of its type. The filter therefore finds
the item that the index leads to, and none where the index has nothing.
-/

namespace TableStore

/-! ## Comparing keys -/

/-- Values of one type are in no order only if they are the same, apart from floating point
numbers. -/
theorem Value.compare?_eq_some_eq_iff {stored literal : Value} (htype : stored.type = literal.type)
    (hfloat : literal.type ≠ .float) : stored.compare? literal = some .eq ↔ stored = literal := by
  cases literal with
  | float _ => exact absurd rfl hfloat
  | integer n =>
    cases stored with
    | integer m =>
      rw [compare?, Option.some.injEq, Std.compare_eq_iff_eq, integer.injEq]
    | _ => cases htype
  | boolean b =>
    cases stored with
    | boolean a =>
      rw [compare?, Option.some.injEq, Std.compare_eq_iff_eq, boolean.injEq]
    | _ => cases htype
  | text t =>
    cases stored with
    | text s =>
      rw [compare?, Option.some.injEq, Std.LawfulEqCmp.compare_eq_iff_eq, text.injEq]
    | _ => cases htype

/-- The predicate that an item has a value as its key and satisfies a condition. -/
def Predicate.keyIs (key : String) (value : Value) (condition : Predicate) : Predicate :=
  .all [.compare ⟨key, .eq, value⟩, condition]

namespace Predicate

variable {value : Value} {condition : Predicate}

theorem check_keyIs {schema : Schema} {column : Column} (hcolumn : schema.keyColumn? = some column)
    (htype : value.type = column.type) (hcheck : condition.check schema = .ok ()) :
    (keyIs schema.primaryKey value condition).check schema = .ok () := by
  have hkey : schema.column? schema.primaryKey = some column := hcolumn
  have hcompare : Comparison.check schema ⟨schema.primaryKey, .eq, value⟩ = .ok () := by
    rw [Comparison.check, hkey]
    simp [htype, Operator.isOrdering]
  rw [keyIs, check, checkAll, check, hcompare]
  dsimp only
  rw [checkAll, hcheck]
  rfl

theorem holds_keyIs {item : Item} {key : String} {stored : Value}
    (hstored : item[key]? = some stored) (htype : stored.type = value.type)
    (hfloat : value.type ≠ .float) :
    (keyIs key value condition).holds item = (decide (stored = value) && condition.holds item) := by
  have hcompare : Comparison.holds item ⟨key, .eq, value⟩ = decide (stored = value) := by
    rw [Comparison.holds, hstored]
    dsimp only [Operator.accepts]
    rw [beq_eq_decide, decide_eq_decide]
    exact Value.compare?_eq_some_eq_iff htype hfloat
  rw [keyIs, holds, allHold, holds, hcompare, allHold, allHold, Bool.and_true]

end Predicate

namespace Ledger

variable {format : RecordFormat} {rows : List Row} {ledger : Ledger} {value : Value} {key : Bytes}

/-- Whether every item of a ledger is under the bytes of its key, and each key is there once. -/
structure IsKeyed (format : RecordFormat) (ledger : Ledger) : Prop where
  key : ∀ entry ∈ ledger, ∃ value, entry.2[format.key.name]? = some value ∧
    format.encodeKey value = .ok entry.1
  distinct : (ledger.map (·.1)).Nodup

/-- The items of rows are under their keys. -/
theorem Reflects.isKeyed (h : Reflects format rows ledger)
    (hcolumns : (format.columns.map (·.name)).Nodup) (hrows : ∀ row ∈ rows, format.IsRow row) :
    IsKeyed format ledger where
  key := by
    intro entry hentry
    have hmem : (entry.1, (.ok entry.2 : Except Failure Item)) ∈
        (latest rows).map fun row ↦ (row.1, format.decode row.2) :=
      h ▸ List.mem_map.mpr ⟨entry, hentry, rfl⟩
    obtain ⟨row, hrow, heq⟩ := List.mem_map.mp hmem
    obtain ⟨hkey, hitem⟩ := Prod.mk.inj heq
    obtain ⟨value, key, hvalue, hencode, hdecode⟩ :=
      RecordFormat.exists_key_of_decode hcolumns hitem
    rw [(hrows row (mem_of_mem_latest hrow)).decodeKey] at hdecode
    refine ⟨value, hvalue, ?_⟩
    rw [hencode, ← hkey, Except.ok.inj hdecode]
  distinct := by
    have hkeys : ledger.map (·.1) = (latest rows).map (·.1) := by
      have hmap := congrArg (List.map (·.1)) h
      simpa only [List.map_map, Function.comp_def] using hmap.symm
    rw [hkeys, List.nodup_iff_pairwise_ne, List.pairwise_map]
    exact pairwise_latestBy _ rows

/-- **Comparing the key of every item finds what looking up its bytes finds.** -/
theorem IsKeyed.filter_keyIs (h : IsKeyed format ledger)
    (hencode : format.encodeKey value = .ok key) (hfloat : value.type ≠ .float)
    (condition : Predicate) :
    (ledger.map (·.2)).filter
        (fun item ↦ (Predicate.keyIs format.key.name value condition).holds item) =
      ((ledger.find? (·.1 = key)).toList.map (·.2)).filter fun item ↦ condition.holds item := by
  have hholds : ∀ entry ∈ ledger,
      (Predicate.keyIs format.key.name value condition).holds entry.2 =
        (decide (entry.1 = key) && condition.holds entry.2) := by
    intro entry hentry
    obtain ⟨stored, hstored, hbytes⟩ := h.key entry hentry
    obtain ⟨htype, hpayload⟩ := RecordFormat.encodeKey_eq_ok_iff.mp hbytes
    obtain ⟨hsame, hwanted⟩ := RecordFormat.encodeKey_eq_ok_iff.mp hencode
    have htypes : stored.type = value.type := htype.trans hsame.symm
    have hkeys : stored = value ↔ entry.1 = key := by
      rw [← hpayload, ← hwanted]
      exact ⟨congrArg Field.payload, Field.eq_of_payload_eq htypes⟩
    rw [Predicate.holds_keyIs hstored htypes hfloat, decide_eq_decide.mpr hkeys]
  calc
    (ledger.map (·.2)).filter
          (fun item ↦ (Predicate.keyIs format.key.name value condition).holds item) =
        (ledger.filter fun entry ↦ (Predicate.keyIs format.key.name value condition).holds
          entry.2).map (·.2) := List.filter_map
    _ = (ledger.filter fun entry ↦ decide (entry.1 = key) && condition.holds entry.2).map (·.2) :=
      congrArg (List.map (·.2)) (List.filter_congr hholds)
    _ = ((ledger.filter (·.1 = key)).filter fun entry ↦ condition.holds entry.2).map (·.2) := by
      rw [List.filter_filter]
      simp only [Bool.and_comm]
    _ = ((ledger.find? (·.1 = key)).toList.map (·.2)).filter fun item ↦ condition.holds item := by
      rw [filter_eq_toList_find? h.distinct, List.filter_map]
      rfl

end Ledger

/-! ## Tables -/

/-- What looking up a key and filtering for it and a condition find: the same item, or none. -/
inductive Table.FindsAlike (table : Table) (disk : Disk) (value : Value) (condition : Predicate) :
    Prop where
  | found {item : Item} (get : table.get disk value = .ok item)
      (filter : table.filter disk (.keyIs table.schema.primaryKey value condition) =
        .ok (if condition.holds item then [item] else []))
  | absent (get : table.get disk value = .error .noKey)
      (filter : table.filter disk (.keyIs table.schema.primaryKey value condition) = .ok [])

/-- The index and a scan find the same in a table whose rows can all be read. -/
theorem Table.Stores.findsAlike {table : Table} {disk : Disk} {rows : List Row} {ledger : Ledger}
    (h : table.Stores disk rows) (hvalid : table.schema.validate = .ok ())
    (hreflects : Ledger.Reflects table.format rows ledger) {column : Column}
    (hcolumn : table.schema.keyColumn? = some column) (hfloat : column.type ≠ .float)
    {value : Value} {condition : Predicate} (htype : value.type = column.type)
    (hcheck : condition.check table.schema = .ok ()) :
    table.FindsAlike disk value condition := by
  obtain ⟨hcolumns, hname⟩ := RecordFormat.of_ofSchema_eq_ok h.format
  have hkey : column = table.format.key := by
    rw [RecordFormat.keyColumn?_of_ofSchema h.format] at hcolumn
    exact (Option.some.inj hcolumn).symm
  have hdistinct : (table.format.columns.map (·.name)).Nodup := by
    rw [hcolumns]
    exact (Schema.isValid_of_validate hvalid).column_names_distinct
  have hencode : table.format.encodeKey value = .ok (Field.payload value) :=
    RecordFormat.encodeKey_eq_ok_iff.mpr ⟨hkey ▸ htype, rfl⟩
  have hget := h.get value
  have hfilter := h.filter (.keyIs table.schema.primaryKey value condition)
  rw [hencode] at hget
  rw [Predicate.check_keyIs hcolumn htype hcheck] at hfilter
  dsimp only at hget hfilter
  rw [hreflects.pick, ← hname, (hreflects.isKeyed hdistinct h.isRow).filter_keyIs hencode
    (htype ▸ hfloat), hname] at hfilter
  have hfind := hreflects.find? (Field.payload value)
  cases hrow : (latest rows).find? (·.1 = Field.payload value) with
  | none =>
    rw [hrow, Option.map_none, eq_comm, Option.map_eq_none_iff] at hfind
    rw [hrow] at hget
    rw [hfind] at hfilter
    exact .absent hget hfilter
  | some row =>
    rw [hrow, Option.map_some, eq_comm, Option.map_eq_some_iff] at hfind
    obtain ⟨entry, hentry, hitem⟩ := hfind
    rw [hrow] at hget
    rw [hentry] at hfilter
    refine .found (hget.trans hitem.symm) (hfilter.trans ?_)
    rw [Option.toList_some, List.map_singleton, List.filter_cons, List.filter_nil]

/-- **Looking up a key and filtering for it find the same**, in whatever state a table has come to
since its creation and whatever else the filter asks for, if the key is no floating point number. -/
theorem Session.findsAlike_of_create {disk created : Disk} {directory : Place} {schema : Schema}
    {policy : SyncPolicy} {table : Table} {column : Column} (htree : disk.IsTree)
    (hcreate : Table.create disk directory schema policy = (.ok table, created))
    (hcolumn : schema.keyColumn? = some column) (hfloat : column.type ≠ .float)
    (operations : List Operation) :
    ∃ answers last, Session.run ⟨table, created⟩ operations = (answers, some last) ∧
      last.table.schema = schema ∧
      ∀ value condition, value.type = column.type → condition.check schema = .ok () →
        last.table.FindsAlike last.disk value condition := by
  obtain ⟨hstores, hschema, _, _⟩ := Table.stores_of_create htree hcreate
  have hempty : ∃ ledger, Ledger.Reflects table.format [] ledger := ⟨[], rfl⟩
  obtain ⟨answers, last, rows, hrun, hlast, ⟨ledger, hreflects⟩, hcontinues⟩ :=
    run_of_stores (P := fun rows ↦ ∃ ledger, Ledger.Reflects table.format rows ledger)
      (fun fault? _ operation ⟨_, h⟩ ↦ ⟨_, (h.serve table.schema fault? operation).1⟩)
      hstores rfl rfl hempty operations
  have hsame : last.table.schema = schema := hcontinues.schema.trans hschema
  refine ⟨answers, last, hrun, hsame, ?_⟩
  intro value condition htype hcheck
  rw [← hcontinues.format] at hreflects
  subst hsame
  exact hlast.findsAlike (Table.validate_of_create_eq_ok hcreate) hreflects hcolumn hfloat htype
    hcheck

/-- An order is looked up by its number and searched for by its number and its note, after a
compaction and with the table opened once more. -/
theorem Session.findsAlike_of_create_orders :
    Disk.empty.IsTree ∧ RecordFormat.ordersSchema.keyColumn? = some ⟨"id", .integer⟩ ∧
      ColumnType.integer ≠ .float ∧
      Predicate.check RecordFormat.ordersSchema (.compare ⟨"note", .eq, .text "größe"⟩) = .ok () ∧
      ∃ table created, Table.create Disk.empty ordersPlace RecordFormat.ordersSchema .everyRecord =
          (.ok table, created) ∧
        ∃ answers last, Session.run ⟨table, created⟩ [.put RecordFormat.orderItem, .compact,
            .reopen (.every 2)] = (answers, some last) ∧
          last.table.schema = RecordFormat.ordersSchema ∧
          last.table.FindsAlike last.disk (.integer (-7))
            (.compare ⟨"note", .eq, .text "größe"⟩) := by
  have hcolumn : RecordFormat.ordersSchema.keyColumn? = some ⟨"id", .integer⟩ := by rfl
  have hcheck : Predicate.check RecordFormat.ordersSchema
      (.compare ⟨"note", .eq, .text "größe"⟩) = .ok () := by rfl
  have hcreates : (Table.create Disk.empty ordersPlace RecordFormat.ordersSchema
      .everyRecord).1.isOk = true := by decide +kernel
  cases hcreate : Table.create Disk.empty ordersPlace RecordFormat.ordersSchema .everyRecord with
  | mk outcome created =>
    cases outcome with
    | error e => rw [hcreate] at hcreates; cases hcreates
    | ok table =>
      obtain ⟨answers, last, hrun, hschema, hfinds⟩ := Session.findsAlike_of_create
        Disk.isTree_empty hcreate hcolumn (by decide) [.put RecordFormat.orderItem, .compact,
          .reopen (.every 2)]
      exact ⟨Disk.isTree_empty, hcolumn, by decide, hcheck, table, created, rfl, answers, last,
        hrun, hschema, hfinds (.integer (-7)) (.compare ⟨"note", .eq, .text "größe"⟩) rfl hcheck⟩

end TableStore

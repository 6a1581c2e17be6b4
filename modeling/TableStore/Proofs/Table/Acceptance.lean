import TableStore.Proofs.Log.Faults
import TableStore.Proofs.Record.Key
import TableStore.Proofs.Table.Changes

/-!
# Which items a table accepts

An item is accepted if its names are those of columns, the primary key is one of them, and every
value has the type of its column. An item can break all of these rules at once. It is refused for
its names first, of which the least is reported, then for the key, and then for the first column, in
the order of the schema, whose value has another type. A refused item leaves no trace. The record of
an accepted item is as long as its bitmap and its values make it.
-/

-- Sums start at the zero of the core library, whatever is imported beside it.
attribute [local instance (1100)] Zero.ofOfNat0

namespace TableStore

/-! ## The rules -/

/-- Whether an item keeps to a schema. -/
structure Schema.Accepts (schema : Schema) (item : Item) : Prop where
  known : ∀ name ∈ item, ∃ column ∈ schema.columns, column.name = name
  key : schema.primaryKey ∈ item
  typed : ∀ column ∈ schema.columns, ∀ value, item[column.name]? = some value →
    value.type = column.type

/-- What an item that does not keep to a schema is refused for. -/
inductive Schema.Refuses (schema : Schema) (item : Item) : Failure → Prop where
  | unknown {name : String} (mem : name ∈ item)
      (unknown : ∀ column ∈ schema.columns, column.name ≠ name)
      (least : ∀ other ∈ item, (∀ column ∈ schema.columns, column.name ≠ other) → other ≠ name →
        Utf8.order name other = .lt) :
      Refuses schema item (.unknownColumn name)
  | missing (known : ∀ name ∈ item, ∃ column ∈ schema.columns, column.name = name)
      (absent : schema.primaryKey ∉ item) : Refuses schema item (.missingKey schema.primaryKey)
  | mismatch (known : ∀ name ∈ item, ∃ column ∈ schema.columns, column.name = name)
      (key : schema.primaryKey ∈ item) {before after : List Column} {column : Column}
      {value : Value} (columns : schema.columns = before ++ column :: after)
      (typed : ∀ earlier ∈ before, ∀ value, item[earlier.name]? = some value →
        value.type = earlier.type)
      (stored : item[column.name]? = some value) (other : value.type ≠ column.type) :
      Refuses schema item (.typeMismatch column.name column.type value.type)

/-- The number of bytes of the field of a value. -/
def Field.width : Value → Nat
  | .integer _ | .float _ => 8
  | .boolean _ => 1
  | .text t => 4 + t.utf8ByteSize

/-- The number of bytes of the fields that an item has in some columns. -/
def RecordFormat.fieldsWidth (item : Item) (columns : List Column) : Nat :=
  ((columns.filterMap fun column ↦ item[column.name]?).map Field.width).sum

/-- The length of the record of an item: four bytes, one bit for every column, and the fields. -/
def Schema.recordLength (schema : Schema) (item : Item) : Nat :=
  4 + (schema.columns.length + 7) / 8 + RecordFormat.fieldsWidth item schema.columns

/-! ## Fields -/

namespace Field

variable {value : Value} {field : Bytes}

theorem length_of_encode (h : encode value = .ok field) : field.length = width value := by
  cases value with
  | integer n => cases h; exact LittleEndian.length_encode 8 _
  | float x => cases h; exact LittleEndian.length_encode 8 _
  | boolean b => cases h; rfl
  | text t =>
    obtain ⟨_, rfl⟩ := encode_text_eq_ok_iff.mp h
    rw [List.length_append, LittleEndian.length_encode, Utf8.length_encode, width]

theorem exists_encode (h : width value ≤ lengthLimit) : ∃ field, encode value = .ok field := by
  cases value with
  | text t =>
    rw [width] at h
    exact ⟨_, encode_text_eq_ok_iff.mpr ⟨by omega, rfl⟩⟩
  | _ => exact ⟨_, rfl⟩

end Field

namespace RecordFormat

variable {schema : Schema} {format : RecordFormat} {item : Item} {record : Bytes}

section Columns

variable {columns before after : List Column} {column : Column} {value : Value} {written : Bytes}

theorem fieldsWidth_append (item : Item) (columns others : List Column) :
    fieldsWidth item (columns ++ others) = fieldsWidth item columns + fieldsWidth item others := by
  rw [fieldsWidth, List.filterMap_append, List.map_append, List.sum_append]
  rfl

theorem fieldsWidth_cons_of_none (h : item[column.name]? = none) :
    fieldsWidth item (column :: columns) = fieldsWidth item columns := by
  rw [fieldsWidth, List.filterMap_cons, h]
  rfl

theorem fieldsWidth_cons_of_some (h : item[column.name]? = some value) :
    fieldsWidth item (column :: columns) = Field.width value + fieldsWidth item columns := by
  rw [fieldsWidth, List.filterMap_cons, h]
  rfl

theorem length_of_fields (h : fields item columns = .ok written) :
    written.length = fieldsWidth item columns := by
  induction columns generalizing written with
  | nil => cases h; rfl
  | cons column rest ih =>
    rcases fields_cons_eq_ok h with ⟨habsent, hrest⟩ | ⟨value, field, others, hvalue, _, hfield,
      hrest, rfl⟩
    · rw [fieldsWidth_cons_of_none habsent, ih hrest]
    · rw [fieldsWidth_cons_of_some hvalue, List.length_append, Field.length_of_encode hfield,
        ih hrest]

/-- The fields of columns whose values have their types are written, if they are not too long. -/
theorem exists_fields
    (htyped : ∀ column ∈ columns, ∀ value, item[column.name]? = some value →
      value.type = column.type)
    (hfits : fieldsWidth item columns ≤ Field.lengthLimit) :
    ∃ written, fields item columns = .ok written := by
  induction columns with
  | nil => exact ⟨[], rfl⟩
  | cons column rest ih =>
    have hrest := ih fun other hother ↦ htyped other (List.mem_cons_of_mem _ hother)
    cases hvalue : item[column.name]? with
    | none =>
      rw [fieldsWidth_cons_of_none hvalue] at hfits
      rw [fields, hvalue]
      exact hrest hfits
    | some value =>
      rw [fieldsWidth_cons_of_some hvalue] at hfits
      have hshort : Field.width value ≤ Field.lengthLimit := by omega
      obtain ⟨field, hfield⟩ := Field.exists_encode hshort
      obtain ⟨others, hothers⟩ := hrest (by omega)
      refine ⟨field ++ others, ?_⟩
      rw [fields, hvalue]
      dsimp only
      rw [if_neg (not_not_intro (htyped column List.mem_cons_self value hvalue)), hfield]
      dsimp only
      rw [hothers]

/-- Writing the fields of more columns goes on behind those that are written. -/
theorem fields_append (h : fields item columns = .ok written) (others : List Column) :
    fields item (columns ++ others) = (fields item others).map (written ++ ·) := by
  induction columns generalizing written with
  | nil =>
    cases h
    cases hothers : fields item others <;> simp [hothers, Except.map]
  | cons column rest ih =>
    rw [List.cons_append, fields]
    rcases fields_cons_eq_ok h with ⟨habsent, hrest⟩ | ⟨value, field, behind, hvalue, htype, hfield,
      hrest, rfl⟩
    · rw [habsent]
      exact ih hrest
    · rw [hvalue]
      dsimp only
      rw [if_neg (not_not_intro htype), hfield]
      dsimp only
      rw [ih hrest]
      cases fields item others <;> simp [Except.map]

/-- Writing the fields fails at the first value of another type, if those before it are not too
long. -/
theorem fields_eq_error
    (htyped : ∀ earlier ∈ before, ∀ value, item[earlier.name]? = some value →
      value.type = earlier.type)
    (hfits : fieldsWidth item before ≤ Field.lengthLimit)
    (hvalue : item[column.name]? = some value) (htype : value.type ≠ column.type) :
    fields item (before ++ column :: after) =
      .error (.typeMismatch column.name column.type value.type) := by
  obtain ⟨front, hfront⟩ := exists_fields htyped hfits
  rw [fields_append hfront, fields, hvalue]
  dsimp only
  rw [if_pos htype]
  rfl

end Columns

/-! ## Names -/

/-- The unknown name that is found is the least. -/
theorem of_unknown?_eq_some {name : String} (h : format.unknown? item = some name) :
    name ∈ item ∧ (∀ column ∈ format.columns, column.name ≠ name) ∧
      ∀ other ∈ item, (∀ column ∈ format.columns, column.name ≠ other) → other ≠ name →
        Utf8.order name other = .lt := by
  have hunknown (other : String) : (!format.columns.any (·.name == other)) = true ↔
      ∀ column ∈ format.columns, column.name ≠ other := by
    simp
  obtain ⟨hname, front, back, hkeys, hfront⟩ := List.find?_eq_some_iff_append.mp h
  have hmem : name ∈ item.keys := by simp [hkeys]
  refine ⟨Std.ExtTreeMap.mem_keys.mp hmem, (hunknown name).mp hname, ?_⟩
  intro other hother hnone hne
  -- The names are gone through in their order, and those passed over are columns.
  have hordered := Std.ExtTreeMap.ordered_keys (t := item)
  rw [hkeys, List.pairwise_append, List.pairwise_cons] at hordered
  have hplace : other ∈ front ++ name :: back := hkeys ▸ Std.ExtTreeMap.mem_keys.mpr hother
  rcases List.mem_append.mp hplace with hbefore | hbehind
  · have hpassed := hfront other hbefore
    rw [(hunknown other).mpr hnone] at hpassed
    cases hpassed
  · rcases List.mem_cons.mp hbehind with rfl | hlater
    · exact absurd rfl hne
    · exact hordered.2.1.1 other hlater

theorem unknown?_eq_some_iff {name : String} :
    format.unknown? item = some name ↔
      name ∈ item ∧ (∀ column ∈ format.columns, column.name ≠ name) ∧
        ∀ other ∈ item, (∀ column ∈ format.columns, column.name ≠ other) → other ≠ name →
          Utf8.order name other = .lt := by
  refine ⟨of_unknown?_eq_some, ?_⟩
  rintro ⟨hmem, hunknown, hleast⟩
  cases hfound : format.unknown? item with
  | none =>
    obtain ⟨column, hcolumn, hname⟩ :=
      unknown?_eq_none_iff.mp hfound name (Std.ExtTreeMap.mem_iff_contains.mp hmem)
    exact absurd hname (hunknown column hcolumn)
  | some first =>
    obtain ⟨hfirst, hnone, hbelow⟩ := of_unknown?_eq_some hfound
    by_cases hsame : first = name
    · rw [hsame]
    · exact absurd (hleast first hfirst hnone hsame)
        (Std.OrientedCmp.not_lt_of_lt (hbelow name hmem hunknown (Ne.symm hsame)))

/-! ## Records -/

theorem recordLength_eq (hformat : ofSchema schema = .ok format) (item : Item) :
    schema.recordLength item =
      Frame.width + (format.bitmapLength + fieldsWidth item format.columns) := by
  rw [(of_ofSchema_eq_ok hformat).1, bitmapLength, (of_ofSchema_eq_ok hformat).1, ← Nat.add_assoc]
  rfl

theorem length_of_encode (hformat : ofSchema schema = .ok format)
    (h : format.encode item = .ok record) : record.length = schema.recordLength item := by
  obtain ⟨_, _, written, hwritten, _, rfl⟩ := encode_eq_ok_iff.mp h
  rw [recordLength_eq hformat, Frame.ofBody, List.length_append, LittleEndian.length_encode,
    List.length_append, length_presence, length_of_fields hwritten]

theorem unknown?_eq_none (hformat : ofSchema schema = .ok format)
    (hknown : ∀ name ∈ item, ∃ column ∈ schema.columns, column.name = name) :
    format.unknown? item = none := by
  rw [unknown?_eq_none_iff, (of_ofSchema_eq_ok hformat).1]
  exact fun name hname ↦ hknown name (Std.ExtTreeMap.mem_iff_contains.mpr hname)

/-- An accepted item is written. -/
theorem exists_encode_of_accepts (hformat : ofSchema schema = .ok format)
    (h : schema.Accepts item) (hfits : schema.recordLength item ≤ Frame.width + Frame.bodyLimit) :
    ∃ record, format.encode item = .ok record := by
  obtain ⟨hcolumns, hkey⟩ := of_ofSchema_eq_ok hformat
  have htyped := h.typed
  have hlimit : Field.lengthLimit = Frame.bodyLimit := rfl
  rw [recordLength_eq hformat] at hfits
  rw [← hcolumns] at htyped
  obtain ⟨written, hwritten⟩ := exists_fields htyped (by omega)
  refine ⟨_, encode_eq_ok_iff.mpr
    ⟨unknown?_eq_none hformat h.known, ?_, written, hwritten, ?_, rfl⟩⟩
  · rw [hkey]
    exact Std.ExtTreeMap.mem_iff_contains.mp h.key
  · rw [List.length_append, length_presence, length_of_fields hwritten]
    omega

/-- A refused item is not written, for the reason it is refused. -/
theorem encode_of_refuses (hformat : ofSchema schema = .ok format) {e : Failure}
    (h : schema.Refuses item e)
    (hfits : schema.recordLength item ≤ Frame.width + Frame.bodyLimit) :
    format.encode item = .error e := by
  obtain ⟨hcolumns, hkey⟩ := of_ofSchema_eq_ok hformat
  cases h with
  | unknown hmem hunknown hleast =>
    rw [← hcolumns] at hunknown hleast
    rw [encode, unknown?_eq_some_iff.mpr ⟨hmem, hunknown, hleast⟩]
  | missing hknown habsent =>
    rw [Std.ExtTreeMap.mem_iff_contains, Bool.not_eq_true] at habsent
    rw [encode, unknown?_eq_none hformat hknown, hkey]
    dsimp only
    rw [habsent, Bool.not_false, if_pos rfl]
  | mismatch hknown hpresent hsplit htyped hstored hother =>
    -- The fields in front must not be too long, for that would be reported first.
    have hlimit : Field.lengthLimit = Frame.bodyLimit := rfl
    rw [recordLength_eq hformat, hcolumns, hsplit, fieldsWidth_append] at hfits
    rw [Std.ExtTreeMap.mem_iff_contains] at hpresent
    rw [encode, unknown?_eq_none hformat hknown, hkey]
    dsimp only
    rw [hpresent, Bool.not_true, if_neg Bool.false_ne_true, hcolumns, hsplit,
      fields_eq_error htyped (by omega) hstored hother]

/-- Every item is accepted or refused. -/
theorem accepts_or_exists_refuses (hformat : ofSchema schema = .ok format) (item : Item) :
    schema.Accepts item ∨ ∃ e, schema.Refuses item e := by
  have hcolumns := (of_ofSchema_eq_ok hformat).1
  cases hname : format.unknown? item with
  | some name =>
    rw [unknown?_eq_some_iff, hcolumns] at hname
    exact .inr ⟨_, .unknown hname.1 hname.2.1 hname.2.2⟩
  | none =>
    rw [unknown?_eq_none_iff, hcolumns] at hname
    have hknown : ∀ name ∈ item, ∃ column ∈ schema.columns, column.name = name :=
      fun name hmem ↦ hname name (Std.ExtTreeMap.mem_iff_contains.mp hmem)
    by_cases hkey : schema.primaryKey ∈ item
    · cases hfound : schema.columns.find? (fun column ↦
          item[column.name]?.any fun value ↦ value.type != column.type) with
      | none =>
        refine .inl ⟨hknown, hkey, fun column hcolumn value hvalue ↦ ?_⟩
        simpa [hvalue] using List.find?_eq_none.mp hfound column hcolumn
      | some column =>
        obtain ⟨hwrong, before, after, hsplit, hbefore⟩ := List.find?_eq_some_iff_append.mp hfound
        rw [Option.any_eq_true] at hwrong
        obtain ⟨value, hvalue, hother⟩ := hwrong
        refine .inr ⟨_, .mismatch hknown hkey hsplit ?_ hvalue (bne_iff_ne.mp hother)⟩
        intro earlier hearlier stored hstored
        simpa [hstored] using hbefore earlier hearlier
    · exact .inr ⟨_, .missing hknown hkey⟩

theorem exists_encode_iff (hformat : ofSchema schema = .ok format) (item : Item) :
    (∃ record, format.encode item = .ok record) ↔
      schema.Accepts item ∧ schema.recordLength item ≤ Frame.width + Frame.bodyLimit := by
  constructor
  · rintro ⟨record, hencode⟩
    have hfits : schema.recordLength item ≤ Frame.width + Frame.bodyLimit := by
      obtain ⟨_, _, written, hwritten, hlimit, _⟩ := encode_eq_ok_iff.mp hencode
      rw [List.length_append, length_presence, length_of_fields hwritten] at hlimit
      rw [recordLength_eq hformat]
      omega
    rcases accepts_or_exists_refuses hformat item with haccepts | ⟨e, hrefuses⟩
    · exact ⟨haccepts, hfits⟩
    · rw [encode_of_refuses hformat hrefuses hfits] at hencode
      cases hencode
  · rintro ⟨haccepts, hfits⟩
    exact exists_encode_of_accepts hformat haccepts hfits

theorem encode_eq_error_iff (hformat : ofSchema schema = .ok format)
    (hfits : schema.recordLength item ≤ Frame.width + Frame.bodyLimit) {e : Failure} :
    format.encode item = .error e ↔ schema.Refuses item e := by
  refine ⟨fun hencode ↦ ?_, fun hrefuses ↦ encode_of_refuses hformat hrefuses hfits⟩
  rcases accepts_or_exists_refuses hformat item with haccepts | ⟨first, hrefuses⟩
  · obtain ⟨record, hrecord⟩ := exists_encode_of_accepts hformat haccepts hfits
    rw [hrecord] at hencode
    cases hencode
  · rw [encode_of_refuses hformat hrefuses hfits] at hencode
    cases hencode
    exact hrefuses

end RecordFormat

/-! ## Tables -/

/-- An append that fails commits nothing. -/
theorem AppendLog.committed_of_append_eq_error {log after : AppendLog} {disk left : Disk}
    {record : Bytes} {e : Failure} (h : log.append disk record = (.error e, after, left)) :
    after.committed = log.committed := by
  have hcommitted (content : Bytes) (faults : Faults)
      (herror : (log.appendTo content faults record).1 = .error e) :
      (log.appendTo content faults record).2.1.committed = log.committed := by
    rw [committed_appendTo, herror]
    rfl
  unfold append at h
  split at h
  all_goals
    rw [Prod.mk.injEq, Prod.mk.injEq] at h
    rw [← h.2.1]
    exact hcommitted _ _ h.1

/-- A write that fails changes neither the index nor the size of the table. -/
theorem Table.of_put_eq_error {table after : Table} {disk left : Disk} {item : Item} {e : Failure}
    (h : table.put disk item = (.error e, after, left)) :
    after.index = table.index ∧ after.stats = table.stats := by
  unfold put at h
  split at h
  · cases h
    exact ⟨rfl, rfl⟩
  · split at h
    · cases h
      exact ⟨rfl, rfl⟩
    · split at h
      · next happend =>
        cases h
        refine ⟨rfl, ?_⟩
        rw [stats, stats, AppendLog.committed_of_append_eq_error happend]
      · cases h

namespace RecordFormat

/-- How a format writes the items of a schema, and what becomes of those it does not write. -/
structure KeepsTo (format : RecordFormat) (schema : Schema) : Prop where
  /-- An item is written if it is accepted and its record is not too long. -/
  succeeds_iff : ∀ item, (∃ record, format.encode item = .ok record) ↔
    schema.Accepts item ∧ schema.recordLength item ≤ Frame.width + Frame.bodyLimit
  /-- Otherwise it fails with what the item is refused for. -/
  fails_iff : ∀ item, schema.recordLength item ≤ Frame.width + Frame.bodyLimit → ∀ e,
    format.encode item = .error e ↔ schema.Refuses item e
  length : ∀ item record, format.encode item = .ok record →
    record.length = schema.recordLength item
  /-- The number at the beginning is that of the bytes behind it. -/
  lead : ∀ item record, format.encode item = .ok record →
    LittleEndian.decode (record.take 4) = (record.drop 4).length
  /-- A table to which an item is put that is not written is the same afterwards, and so is the
  disk. -/
  put : ∀ item e, format.encode item = .error e → ∀ (table : Table) (disk : Disk),
    table.format = format → table.put disk item = (.error e, table, disk)
  /-- Whatever else a write fails for, the index and the size of the table stay the same. -/
  stats : ∀ (table after : Table) (disk left : Disk) item e,
    table.put disk item = (.error e, after, left) →
      after.index = table.index ∧ after.stats = table.stats

/-- **The format of a valid schema writes the items that keep to the schema and no others**, and
refuses an item that breaks several rules for the first of them. -/
theorem keepsTo_of_validate {schema : Schema} (hvalid : schema.validate = .ok ()) :
    ∃ format, ofSchema schema = .ok format ∧ format.KeepsTo schema := by
  obtain ⟨format, hformat⟩ := (Schema.isValid_of_validate hvalid).exists_format
  refine ⟨format, hformat, ?_⟩
  exact {
    succeeds_iff := exists_encode_iff hformat
    fails_iff := fun item hfits e ↦ encode_eq_error_iff hformat hfits
    length := fun item record ↦ length_of_encode hformat
    lead := fun item record h ↦ by
      obtain ⟨_, _, written, _, hlimit, rfl⟩ := encode_eq_ok_iff.mp h
      have hlead (length : Nat) : (LittleEndian.encode Frame.width length).length = 4 :=
        LittleEndian.length_encode _ _
      rw [Frame.ofBody, List.take_left' (hlead _), List.drop_left' (hlead _)]
      exact LittleEndian.decode_encode (Frame.length_lt_of_le_bodyLimit hlimit)
    put := fun item e h table disk hformat ↦ Table.put_of_error (hformat ▸ h)
    stats := fun table after disk left item e ↦ Table.of_put_eq_error }

/-- An item without a key, with two unknown names and a value of another type. -/
def crowdedItem : Item :=
  ((((∅ : Item).insert "zone" (.integer 1)).insert "price" (.integer 2)).insert "paid"
    (.integer 3))

/-- An item whose key and whose first column are of other types. -/
def mistypedItem : Item :=
  (((∅ : Item).insert "id" (.text "seven")).insert "note" (.integer 7))

theorem keepsTo_of_validate_orders :
    ordersSchema.validate = .ok () ∧ ∃ format, ofSchema ordersSchema = .ok format ∧
      format.KeepsTo ordersSchema ∧ ordersSchema.Refuses crowdedItem (.unknownColumn "price") ∧
      ordersSchema.Refuses mistypedItem (.typeMismatch "note" .text .integer) ∧
      ordersSchema.Accepts orderItem ∧ ordersSchema.recordLength orderItem = 32 := by
  have hvalid : ordersSchema.validate = .ok () := by rfl
  obtain ⟨format, hformat, hkeeps⟩ := keepsTo_of_validate hvalid
  obtain rfl := Except.ok.inj (hformat.symm.trans ofSchema_orders)
  have hcrowded : encode ⟨ordersSchema.columns, 1, by decide⟩ crowdedItem =
      .error (.unknownColumn "price") := by
    rfl
  have hmistyped : encode ⟨ordersSchema.columns, 1, by decide⟩ mistypedItem =
      .error (.typeMismatch "note" .text .integer) := by
    rfl
  have horder : (encode ⟨ordersSchema.columns, 1, by decide⟩ orderItem).isOk = true := by
    decide +kernel
  refine ⟨hvalid, _, hformat, hkeeps, (hkeeps.fails_iff _ (by decide +kernel) _).mp hcrowded,
    (hkeeps.fails_iff _ (by decide +kernel) _).mp hmistyped, ?_, by rfl⟩
  cases hrecord : encode ⟨ordersSchema.columns, 1, by decide⟩ orderItem with
  | error e => rw [hrecord] at horder; cases horder
  | ok record => exact ((hkeeps.succeeds_iff _).mp ⟨record, hrecord⟩).1

end RecordFormat

end TableStore

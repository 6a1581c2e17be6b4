import TableStore.Json.Schema
import TableStore.Proofs.Json.Value

/-!
# Schemas and items in JSON written and read

A structure is written as an object in which each field stands once, and an item as one in which
each name stands once. So no member replaces another one when they are read, and every schema, be
it valid or not, and every item with finite numbers come back from their own texts. What has been
read can be spelled in ways in which nothing is written, but once it has been read these leave no
trace.
-/

namespace TableStore

namespace Json

/-- Whether data of one kind come back from JSON texts. -/
structure ReadsBack {Data : Type} (toJson : Data → Json) (ofJson? : Json → Option Data)
    (IsFinite : Data → Prop) : Prop where
  /-- What has only finite numbers is read from its own text as it was. -/
  written : ∀ data, IsFinite data → (parse? (toJson data).render).bind ofJson? = some data
  /-- What has been read from any text has only finite numbers, -/
  finite : ∀ text data, (parse? text).bind ofJson? = some data → IsFinite data
  /-- and so it is read from its own text once more. -/
  again : ∀ text data, (parse? text).bind ofJson? = some data →
    (parse? (toJson data).render).bind ofJson? = some data

variable {Data : Type} {toJson : Data → Json} {ofJson? : Json → Option Data}
  {IsFinite : Data → Prop}

/-- Data that come back from trees come back from texts. -/
theorem readsBack_of_trees (hcanonical : ∀ data, IsFinite data → (toJson data).IsCanonical)
    (hwritten : ∀ data, IsFinite data → ofJson? (toJson data) = some data)
    (hread : ∀ tree data, ofJson? tree = some data → IsFinite data) :
    ReadsBack toJson ofJson? IsFinite := by
  have hback (data : Data) (h : IsFinite data) :
      (parse? (toJson data).render).bind ofJson? = some data := by
    rw [parse?_render (hcanonical data h), Option.bind_some, hwritten data h]
  have hfinite (text : String) (data : Data) (h : (parse? text).bind ofJson? = some data) :
      IsFinite data := by
    obtain ⟨tree, _, htree⟩ := Option.bind_eq_some_iff.mp h
    exact hread tree data htree
  exact ⟨hback, hfinite, fun text data h ↦ hback data (hfinite text data h)⟩

end Json

/-! ## Schemas -/

@[simp]
theorem ColumnType.ofName?_name (type : ColumnType) : ofName? type.name = some type := by
  cases type <;> rfl

namespace Column

theorem ofJson?_toJson (column : Column) : ofJson? column.toJson = some column := by
  have hfields : column.toJson.fields? ["name", "type"] =
      some [Json.ofText column.name, Json.ofText column.type.name] := rfl
  have htype : (Json.ofText column.type.name).choice? = some column.type.name := rfl
  rw [ofJson?, hfields]
  dsimp only
  rw [htype, Option.bind_some, ColumnType.ofName?_name]
  rfl

theorem isCanonical_toJson (column : Column) : column.toJson.IsCanonical := by
  apply Json.isCanonical_ofFields
  simp only [List.forall_mem_cons]
  exact ⟨Json.isCanonical_ofText _, Json.isCanonical_ofText _, List.forall_mem_nil _⟩

/-- Columns are read back one by one, whatever their names are. -/
theorem mapM_ofJson?_map_toJson (columns : List Column) :
    (columns.map toJson).mapM ofJson? = some columns := by
  induction columns with
  | nil => rfl
  | cons column rest ih =>
    rw [List.map_cons, List.mapM_cons, ofJson?_toJson, ih]
    rfl

end Column

namespace Schema

/-- **A schema is read back from its tree**, be it valid or not. -/
theorem ofJson?_toJson (schema : Schema) : ofJson? schema.toJson = some schema := by
  have hfields : schema.toJson.fields? ["name", "columns", "primary_key"] =
      some [Json.ofText schema.name, .array (schema.columns.map Column.toJson),
        Json.ofText schema.primaryKey] := rfl
  have hcolumns : (Json.array (schema.columns.map Column.toJson)).items? =
      some (schema.columns.map Column.toJson) := rfl
  rw [ofJson?, hfields]
  dsimp only
  rw [hcolumns, Option.bind_some, Column.mapM_ofJson?_map_toJson]
  rfl

theorem isCanonical_toJson (schema : Schema) : schema.toJson.IsCanonical := by
  have hcolumns : (Json.array (schema.columns.map Column.toJson)).IsCanonical := by
    apply Json.isCanonical_array
    rw [List.forall_mem_map]
    exact fun column _ ↦ column.isCanonical_toJson
  apply Json.isCanonical_ofFields
  simp only [List.forall_mem_cons]
  exact ⟨Json.isCanonical_ofText _, hcolumns, Json.isCanonical_ofText _, List.forall_mem_nil _⟩

end Schema

/-! ## Items -/

namespace Item

/-- The members of an item's own text. -/
def members (item : Item) : List (String × Json) :=
  item.toList.map fun (name, value) ↦ (name, value.toJson)

theorem toJson_eq (item : Item) : item.toJson = Json.ofFields item.members :=
  rfl

/-- Whether all floating point numbers in an item are finite. -/
def IsFinite (item : Item) : Prop :=
  ∀ (name : String) (value : Value), item[name]? = some value → value.IsFinite

theorem isFinite_empty : IsFinite ∅ := by
  intro name value h
  rw [Std.ExtTreeMap.getElem?_empty] at h
  cases h

theorem IsFinite.insert {item : Item} (h : item.IsFinite) (name : String) {value : Value}
    (hvalue : value.IsFinite) : IsFinite (item.insert name value) := by
  intro asked found hfound
  rw [Std.ExtTreeMap.getElem?_insert] at hfound
  split at hfound
  · cases hfound
    exact hvalue
  · exact h asked found hfound

/-- A member that spells a value replaces what the item has under its name. -/
theorem addMembers?_cons {tree : Json} {value : Value} (h : Value.ofJson? tree = some value)
    (start : Item) (name : String) (rest : List (JsonText × Json)) :
    addMembers? start ((some name, tree) :: rest) = addMembers? (start.insert name value) rest := by
  simp only [addMembers?, h]

/-- Members with finite values are added one after the other. -/
theorem addMembers?_map {entries : List (String × Value)}
    (h : ∀ entry ∈ entries, entry.2.IsFinite) (start : Item) :
    addMembers? start (entries.map fun (name, value) ↦ (some name, value.toJson)) =
      some (start.insertMany entries) := by
  induction entries generalizing start with
  | nil => rw [List.map_nil, addMembers?, Std.ExtTreeMap.insertMany_nil]
  | cons entry rest ih =>
    obtain ⟨name, value⟩ := entry
    obtain ⟨hvalue, hrest⟩ := List.forall_mem_cons.mp h
    rw [List.map_cons, addMembers?_cons (Value.ofJson?_toJson hvalue), ih hrest,
      Std.ExtTreeMap.insertMany_cons]

/-- The entries of an item put together are the item. -/
theorem insertMany_toList (item : Item) : (∅ : Item).insertMany item.toList = item := by
  apply Std.ExtTreeMap.ext_getElem?
  intro name
  cases hname : item[name]? with
  | some value =>
    exact Std.ExtTreeMap.getElem?_insertMany_list_of_mem Std.ReflCmp.compare_self
      item.distinct_keys_toList (Std.ExtTreeMap.mem_toList_iff_getElem?_eq_some.mpr hname)
  | none =>
    have habsent : (item.toList.map Prod.fst).contains name = false := by
      rw [List.contains_eq_mem, decide_eq_false_iff_not]
      intro hmem
      obtain ⟨⟨_, value⟩, hentry, rfl⟩ := List.mem_map.mp hmem
      rw [Std.ExtTreeMap.mem_toList_iff_getElem?_eq_some.mp hentry] at hname
      cases hname
    rw [Std.ExtTreeMap.getElem?_insertMany_list_of_contains_eq_false habsent,
      Std.ExtTreeMap.getElem?_empty]

theorem IsFinite.of_mem_toList {item : Item} (h : item.IsFinite) {entry : String × Value}
    (hentry : entry ∈ item.toList) : entry.2.IsFinite :=
  h entry.1 entry.2 (Std.ExtTreeMap.mem_toList_iff_getElem?_eq_some.mp hentry)

/-- **An item with finite numbers is read back from its tree.** -/
theorem ofJson?_toJson {item : Item} (h : item.IsFinite) : ofJson? item.toJson = some item := by
  have htree : item.toJson =
      .object (item.toList.map fun (name, value) ↦ (some name, value.toJson)) := by
    rw [toJson_eq, members, Json.ofFields, List.map_map]
    rfl
  rw [htree, ofJson?, addMembers?_map (fun entry hentry ↦ h.of_mem_toList hentry),
    insertMany_toList]

theorem isCanonical_toJson {item : Item} (h : item.IsFinite) : item.toJson.IsCanonical := by
  apply Json.isCanonical_ofFields
  rw [List.forall_mem_map]
  exact fun entry hentry ↦ Value.isCanonical_toJson (h.of_mem_toList hentry)

/-- What is added to an item is finite, however often a name is repeated. -/
theorem isFinite_of_addMembers? {start item : Item} {members : List (JsonText × Json)}
    (hstart : start.IsFinite) (h : addMembers? start members = some item) : item.IsFinite := by
  induction members generalizing start with
  | nil =>
    cases h
    exact hstart
  | cons member rest ih =>
    obtain ⟨name, tree⟩ := member
    unfold addMembers? at h
    split at h
    · next hvalue => exact ih (hstart.insert _ (Value.isFinite_of_ofJson? hvalue)) h
    · cases h

theorem isFinite_of_ofJson? {tree : Json} {item : Item} (h : ofJson? tree = some item) :
    item.IsFinite := by
  match tree, h with
  | .object members, h => exact isFinite_of_addMembers? isFinite_empty h

end Item

/-! ## Texts -/

namespace Json

/-- **Schemas and items come back from JSON texts**: from their own, and once they have been read
from any text, again from their own. -/
theorem readsBack_schema_and_item :
    ReadsBack Schema.toJson Schema.ofJson? (fun _ ↦ True) ∧
      ReadsBack Item.toJson Item.ofJson? Item.IsFinite := by
  constructor
  · apply readsBack_of_trees
    · exact fun schema _ ↦ schema.isCanonical_toJson
    · exact fun schema _ ↦ schema.ofJson?_toJson
    · exact fun _ _ _ ↦ trivial
  · apply readsBack_of_trees
    · exact fun _ h ↦ Item.isCanonical_toJson h
    · exact fun _ h ↦ Item.ofJson?_toJson h
    · exact fun _ _ h ↦ Item.isFinite_of_ofJson? h

/-- A schema given as an array, with a type in an object and a number out of range in a field that
is not read, and an item in which a name is repeated with an integer of more than 64 bits. -/
theorem readsBack_schema_and_item_spellings :
    let schema : Schema := ⟨"", [⟨"id", .integer⟩, ⟨"id", .text⟩], "größe"⟩
    let item : Item := ((∅ : Item).insert "n" (.float ⟨0x43E0000000000000⟩)).insert "z"
      (.float ⟨0x8000000000000000⟩)
    let schemaText := "[\"\",[\x7b\"x\":1e999,\"type\":\x7b\"Integer\":null\x7d," ++
      "\"name\":\"id\"\x7d,[\"id\",\"Text\"]],\"größe\"]"
    let itemText := "\x7b\"n\":1,\"z\":-0,\"n\":9223372036854775808\x7d"
    ((parse? schemaText).bind Schema.ofJson? = some schema ∧
      (parse? schema.toJson.render).bind Schema.ofJson? = some schema) ∧
    (parse? itemText).bind Item.ofJson? = some item ∧ item.IsFinite ∧
      (parse? item.toJson.render).bind Item.ofJson? = some item := by
  intro schema item schemaText itemText
  obtain ⟨hschemas, hitems⟩ := readsBack_schema_and_item
  have hschema : (parse? schemaText).bind Schema.ofJson? = some schema := by
    let tree : Json := .array [.string (some ""),
      .array [.object [(some "x", .number ⟨false, [1], [], some (false, [9, 9, 9])⟩),
          (some "type", .object [(some "Integer", .null)]), (some "name", .string (some "id"))],
        .array [.string (some "id"), .string (some "Text")]], .string (some "größe")]
    have htokens : Token.ofChars schemaText.toList = some tree.tokens := by decide +kernel
    rw [parse?_of_ofChars htokens]
    decide +kernel
  have hitem : (parse? itemText).bind Item.ofJson? = some item := by
    let whole : Literal :=
      ⟨false, [9, 2, 2, 3, 3, 7, 2, 0, 3, 6, 8, 5, 4, 7, 7, 5, 8, 0, 8], [], none⟩
    let tree : Json := .object [(some "n", .number ⟨false, [1], [], none⟩),
      (some "z", .number ⟨true, [0], [], none⟩), (some "n", .number whole)]
    have htokens : Token.ofChars itemText.toList = some tree.tokens := by decide +kernel
    have hone : Value.ofJson? (.number ⟨false, [1], [], none⟩) = some (.integer 1) := by
      decide +kernel
    have hzero : Value.ofJson? (.number ⟨true, [0], [], none⟩) =
        some (.float ⟨0x8000000000000000⟩) := by decide +kernel
    have hwhole : Value.ofJson? (.number whole) = some (.float ⟨0x43E0000000000000⟩) := by
      decide +kernel
    rw [parse?_of_ofChars htokens, Option.bind_some, Item.ofJson?, Item.addMembers?_cons hone,
      Item.addMembers?_cons hzero, Item.addMembers?_cons hwhole, Item.addMembers?,
      Option.some.injEq]
    apply Std.ExtTreeMap.ext_getElem?
    intro name
    simp only [item, Std.ExtTreeMap.getElem?_insert, Std.LawfulEqCmp.compare_eq_iff_eq]
    by_cases hn : "n" = name
    · subst hn
      rfl
    · simp only [hn, if_false]
  exact ⟨⟨hschema, hschemas.again _ _ hschema⟩, hitem, hitems.finite _ _ hitem,
    hitems.written item (hitems.finite _ _ hitem)⟩

end Json

end TableStore

import TableStore.Proofs.Command.Operands
import TableStore.Proofs.Engine.Reopening
import TableStore.Proofs.Table.StoppedCreation

/-!
# What one command writes the next one reads

An item is written by one command and read by another one, with the engine closed and opened in
between. Whatever the table stores by then, and whatever else is in the data directory, the item is
printed as its own text.
-/

namespace TableStore

variable {schema : Schema} {format : RecordFormat} {item : Item} {record : Bytes}

/-! ## Columns of an item -/

namespace RecordFormat

/-- Each value of an item that is accepted has the type of its column. -/
theorem exists_column_of_encode (hformat : ofSchema schema = .ok format)
    (h : format.encode item = .ok record) {name : String} {value : Value}
    (hvalue : item[name]? = some value) :
    ∃ column, schema.column? name = some column ∧ value.type = column.type := by
  obtain ⟨hcolumns, _⟩ := of_ofSchema_eq_ok hformat
  obtain ⟨hunknown, _, written, hfields, _, _⟩ := encode_eq_ok_iff.mp h
  have hcontains : item.contains name = true := by
    rw [Std.ExtTreeMap.contains_iff_mem, Std.ExtTreeMap.mem_iff_isSome_getElem?, hvalue]
    rfl
  obtain ⟨found, hfound, hname⟩ := unknown?_eq_none_iff.mp hunknown name hcontains
  cases hcolumn : schema.column? name with
  | none =>
    have habsent := List.find?_eq_none.mp hcolumn found (hcolumns ▸ hfound)
    simp [hname] at habsent
  | some column =>
    have hmem : column ∈ format.columns := hcolumns ▸ List.mem_of_find?_eq_some hcolumn
    have hsame : column.name = name := by simpa using List.find?_some hcolumn
    refine ⟨column, rfl, type_of_fields hfields hmem ?_⟩
    rw [hsame]
    exact hvalue

end RecordFormat

namespace Shelf

variable {shelf : Shelf}

/-- **An item that has just been written is found under its key.** -/
theorem get_put {key : Value} (hkey : item[shelf.format.key.name]? = some key)
    (h : shelf.format.encode item = .ok record) :
    (shelf.put item).1 = .ok () ∧ (shelf.put item).2.get key = .ok item := by
  have hdecode : shelf.format.decodeKey record = .ok (Field.payload key) := by
    rw [RecordFormat.decodeKey, RecordFormat.readKey_of_encode h hkey]
    rfl
  have hput : shelf.put item =
      (.ok (), { shelf with rows := shelf.rows ++ [(Field.payload key, record)] }) := by
    rw [put, h]
    dsimp only
    rw [hdecode]
  have hlast : (Field.payload key, record) ∈
      latest (shelf.rows ++ [(Field.payload key, record)]) := by
    rw [latest, latestBy_concat]
    exact List.mem_append_right _ (List.mem_singleton_self _)
  have hfind : (latest (shelf.rows ++ [(Field.payload key, record)])).find?
      (·.1 = Field.payload key) = some (Field.payload key, record) := find?_latestBy hlast
  rw [hput]
  refine ⟨rfl, ?_⟩
  rw [get, RecordFormat.encodeKey_of_encode h hkey]
  dsimp only
  rw [hfind]
  exact RecordFormat.decode_of_encode h

end Shelf

namespace Command

variable {disk opened left : Disk} {current : Path} {options again : Options} {name text : String}
  {engine : Engine} {table : Table} {shelf : Shelf}

/-! ## Operands of a table -/

theorem readItem_of_encode (hformat : RecordFormat.ofSchema schema = .ok format)
    (hencode : format.encode item = .ok record) (hfinite : item.IsFinite)
    (h : GivesItem item text) : readItem schema text = .ok item := by
  refine readItem_of_gives hfinite ?_ h
  intro name value hvalue
  obtain ⟨column, hcolumn, htype⟩ :=
    RecordFormat.exists_column_of_encode hformat hencode hvalue
  rw [hcolumn]
  exact coerce_of_type htype

theorem readKey_of_encode (hformat : RecordFormat.ofSchema schema = .ok format)
    (hencode : format.encode item = .ok record) (hfinite : item.IsFinite) {key : Value}
    (hkey : item[schema.primaryKey]? = some key) (h : GivesKey key text) :
    readKey schema text = key := by
  obtain ⟨column, hcolumn, htype⟩ :=
    RecordFormat.exists_column_of_encode hformat hencode hkey
  exact readKey_of_gives (hfinite _ _ hkey) hcolumn htype h

/-! ## Running commands -/

/-- A command succeeds if its work does and all tables can be flushed. -/
theorem run_of_perform {command : Command} {output : String} {after : Engine}
    {route : Route} (hopen : Engine.openAt disk current (config options) = (.ok engine, opened))
    (hperform : perform engine opened command = (.ok output, after, left))
    (hafter : after.IsOpenOn left route) :
    run disk current options command = (.ok output, left) := by
  obtain ⟨synced, hsync⟩ := hafter.sync
  rw [run, hopen]
  dsimp only
  rw [hperform]
  dsimp only
  rw [hsync]

/-- **An item that one command writes is what the next one reads**, whatever the table and the data
directory hold, and however the item and its key are given. -/
theorem run_get_of_run_put
    (hopen : Engine.openAt disk current (config options) = (.ok engine, opened))
    (hlogs : ∀ other, engine.tables[other]?.isSome = true →
      opened.get? (Table.logFile (engine.root.enter other)) ≠ some .fullDevice)
    (htable : engine.tables[name]? = some table) (hencode : table.format.encode item = .ok record)
    (hfinite : item.IsFinite) {itemText : String} (hitem : GivesItem item itemText) {key : Value}
    (hkey : item[table.schema.primaryKey]? = some key) {keyText : String}
    (hgives : GivesKey key keyText) (hagain : again.dataDirectory = options.dataDirectory) :
    ∃ left last, run disk current options (.put name itemText) = (.ok "OK\n", left) ∧
      run left current again (.get name keyText) = (.ok (itemLine item ++ "\n"), last) := by
  have hon := Engine.isOpenOn_of_openAt hopen hlogs
  obtain ⟨shelf, hdescribes, hcalled⟩ := hon.shelved name table htable
  have hformat := hdescribes.holds.stores.format
  have hshelfFormat := hdescribes.tableFormat
  have hshelfSchema := hdescribes.holds.schema
  -- The item goes on the shelf,
  obtain ⟨after, left, hput, hafter, hwritten⟩ := hon.put htable hdescribes hcalled item
  have hkeyName : shelf.format.key.name = table.schema.primaryKey := by
    rw [← hshelfFormat]
    exact (RecordFormat.of_ofSchema_eq_ok hformat).2
  obtain ⟨hdone, hget⟩ := Shelf.get_put (hkeyName.symm ▸ hkey) (hshelfFormat ▸ hencode)
  have hperform : perform engine opened (.put name itemText) =
      (.ok "OK\n", engine.setTable name after, left) := by
    rw [perform, runPut, Engine.table_of_some htable]
    dsimp only
    rw [readItem_of_encode hformat hencode hfinite hitem]
    dsimp only
    rw [hput, hdone]
    rfl
  -- and is still there when the engine has been closed and opened again.
  have hdirectory : (config again).dataDirectory = (config options).dataDirectory := by
    rw [config, config, hagain]
  rw [← hdirectory] at hafter
  obtain ⟨reopened, last, hreopen, hroot, hlast, hkeeps⟩ := hafter.reopen
  obtain ⟨found, hfound, hthere⟩ := hkeeps name after (shelf.put item).2
    ((Engine.tables_setTable _ _ _ _).trans (if_pos rfl)) hwritten
    ((shelf.schema_put item).symm ▸ hcalled)
  have hschema : found.schema = table.schema :=
    (hthere.holds.schema.trans (shelf.schema_put item)).trans hshelfSchema.symm
  have hread : perform reopened last (.get name keyText) =
      (.ok (itemLine item ++ "\n"), reopened, last) := by
    rw [perform, runGet, Engine.table_of_some hfound]
    dsimp only
    rw [hschema, readKey_of_encode hformat hencode hfinite hkey hgives, Engine.get,
      Engine.table_of_some hfound]
    dsimp only
    rw [hthere.get, hget]
    rfl
  exact ⟨left, last, run_of_perform hopen hperform hafter, run_of_perform hreopen hread hlast⟩

/-- A schema whose key is a text. -/
def usersSchema : Schema :=
  ⟨"users", [⟨"active", .boolean⟩, ⟨"name", .text⟩, ⟨"score", .float⟩], "name"⟩

/-- A disk with the directory of a table without a log. -/
def usersDisk : Disk :=
  ((Disk.empty.set ["data"] .directory).set ["data", "users"] .directory).set
    ["data", "users", "schema.rls"]
    (.file (Descriptor.withChecksum (Descriptor.content usersSchema)))

/-- An item without a value in one column, whose key looks like a number. -/
def usersItem : Item :=
  ((∅ : Item).insert "score" (.float ⟨0x3FE0000000000000⟩)).insert "name" (.text "12")

/-- The item is given with `null` for the column that it does not have, its members in another
order. -/
def usersMembers : List (String × Json) :=
  [("active", .null), ("score", .number ⟨false, [0], [5], none⟩), ("name", .string (some "12"))]

theorem getElem?_usersItem {name : String} {value : Value} :
    usersItem[name]? = some value ↔ name = "name" ∧ value = .text "12" ∨
      name = "score" ∧ value = .float ⟨0x3FE0000000000000⟩ := by
  have hother : "name" ≠ "score" := by decide
  simp only [usersItem, Std.ExtTreeMap.getElem?_insert, Std.LawfulEqCmp.compare_eq_iff_eq,
    Std.ExtTreeMap.getElem?_empty]
  grind

theorem isGivenBy_usersMembers : usersItem.IsGivenBy usersMembers := by
  have hactive : usersItem["active"]? = none := by decide +kernel
  have hscore : Json.number ⟨false, [0], [5], none⟩ =
      (Value.float ⟨0x3FE0000000000000⟩).toJson := by
    have hliteral : Value.jsonStyle.literal ⟨0x3FE0000000000000⟩ = ⟨false, [0], [5], none⟩ := by
      decide +kernel
    rw [Value.toJson, if_pos (by decide), hliteral]
  constructor
  · intro name value hvalue
    rcases getElem?_usersItem.mp hvalue with ⟨rfl, rfl⟩ | ⟨rfl, rfl⟩
    · exact .tail _ (.tail _ (.head _))
    · rw [← hscore]
      exact .tail _ (.head _)
  · intro name tree hmember
    simp only [usersMembers, List.mem_cons, Prod.mk.injEq, List.not_mem_nil, or_false] at hmember
    rcases hmember with ⟨rfl, rfl⟩ | ⟨rfl, rfl⟩ | ⟨rfl, rfl⟩
    · exact .inr ⟨hactive, rfl⟩
    · exact .inl ⟨_, getElem?_usersItem.mpr (.inr ⟨rfl, rfl⟩), hscore⟩
    · exact .inl ⟨_, getElem?_usersItem.mpr (.inl ⟨rfl, rfl⟩), rfl⟩

/-- A key that looks like a number is given by itself. -/
theorem run_get_of_run_put_users :
    ∃ left last,
      run usersDisk [] ⟨some "data", false⟩
          (.put "users" "\x7b\"active\":null,\"score\":0.5,\"name\":\"12\"\x7d") =
        (.ok "OK\n", left) ∧
      run left [] ⟨some "data", true⟩ (.get "users" "12") =
        (.ok "\x7b\"name\":\"12\",\"score\":0.5\x7d\n", last) := by
  let options : Options := ⟨some "data", false⟩
  let root : Place := ⟨["data"], Route.ofText [] "data"⟩
  have hvalid : usersSchema.validate = .ok () := by decide +kernel
  have hdescribed : Table.IsDescribed usersDisk (root.enter "users") usersSchema := by
    refine ⟨by decide +kernel, ?_, .inl (by decide +kernel), by decide +kernel⟩
    exact Table.load_of_file (by decide +kernel) hvalid (by decide +kernel)
  obtain ⟨table, opened, hopenTable, hholds⟩ :=
    hdescribed.exists_openAt hvalid (config options).syncPolicy
  have hname : usersSchema.name = "users" := rfl
  rw [hname] at hopenTable
  have hroot : Engine.locateRoot usersDisk (Route.ofText [] (config options).dataDirectory) =
      .ok root := by decide +kernel
  have hnames : Engine.tableNames usersDisk root = ["users"] := by decide +kernel
  have hopen : Engine.openAt usersDisk [] (config options) =
      (.ok ((⟨config options, root, ∅⟩ : Engine).setTable "users" table), opened) := by
    rw [Engine.openAt_of_locateRoot hroot, hnames, Engine.openTables_cons]
    dsimp only
    rw [hopenTable]
    dsimp only
    rw [Engine.openTables_nil]
  have htables := Engine.tables_setTable ⟨config options, root, ∅⟩ "users" table
  have hfile := hholds.stores.file
  rw [hholds.place] at hfile
  have hlogs : ∀ other,
      ((⟨config options, root, ∅⟩ : Engine).setTable "users" table).tables[other]?.isSome = true →
        opened.get? (Table.logFile (root.enter other)) ≠ some .fullDevice := by
    intro other hsome
    rw [htables] at hsome
    split at hsome
    · next heq =>
      subst heq
      rw [hfile]
      exact nofun
    · rw [Std.ExtTreeMap.getElem?_empty] at hsome
      cases hsome
  have hformat := hholds.stores.format
  rw [hholds.schema] at hformat
  obtain ⟨record, hencode⟩ : ∃ record, table.format.encode usersItem = .ok record := by
    have haccepted : (match RecordFormat.ofSchema usersSchema with
        | .ok format => (format.encode usersItem).isOk
        | .error _ => false) = true := by
      decide +kernel
    rw [hformat] at haccepted
    dsimp only at haccepted
    cases hencode : table.format.encode usersItem with
    | error failure => rw [hencode] at haccepted; cases haccepted
    | ok record => exact ⟨record, rfl⟩
  have hfinite : usersItem.IsFinite := by
    intro name value hvalue
    rcases getElem?_usersItem.mp hvalue with ⟨rfl, rfl⟩ | ⟨rfl, rfl⟩
    · exact nofun
    · rintro x ⟨⟩
      decide
  have hkey : usersItem[table.schema.primaryKey]? = some (.text "12") := by
    rw [hholds.schema]
    decide +kernel
  have hbare : GivesKey (.text "12") "12" := by
    refine .bare rfl fun spelled hspelled ↦ ?_
    have hnumber : Json.parse? "12" = some (.number ⟨false, [1, 2], [], none⟩) :=
      Json.parse?_of_ofChars (by decide +kernel)
    rw [hnumber] at hspelled
    cases hspelled
  have htext : (Json.ofFields usersMembers).render =
      "\x7b\"active\":null,\"score\":0.5,\"name\":\"12\"\x7d" := by decide +kernel
  have hline : itemLine usersItem ++ "\n" = "\x7b\"name\":\"12\",\"score\":0.5\x7d\n" := by
    decide +kernel
  rw [← htext, ← hline]
  exact run_get_of_run_put hopen hlogs ((htables "users").trans (if_pos rfl)) hencode hfinite
    (.members isGivenBy_usersMembers) hkey hbare rfl

end Command

end TableStore

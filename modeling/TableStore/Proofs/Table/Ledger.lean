import TableStore.Proofs.Table.Session

/-!
# A table as a list of items

What a table is for can be said without bytes: it is a list of items with their keys, in the order
in which they were written last. A write takes out the item with its key and adds its own at the
end, everything else only looks at the list. The answers of a table created on a disk are those of
this list, whatever is done with the table in whatever order, as long as no operation meets a
failure of the file system; and only a compaction whose file has too long a name can.
-/

namespace TableStore

/-- Items with the bytes of their keys, in the order in which they were written last. -/
abbrev Ledger := List (Bytes × Item)

namespace Ledger

/-- A ledger after an item has been written under a key. -/
def put (ledger : Ledger) (key : Bytes) (item : Item) : Ledger :=
  ledger.filter (fun entry ↦ entry.1 ≠ key) ++ [(key, item)]

/-- The bytes of the key under which an item is kept. -/
def keyOf (format : RecordFormat) (item : Item) : Except Failure Bytes :=
  match item[format.key.name]? with
  | none => .error (.missingKey format.key.name)
  | some value => format.encodeKey value

/-- What an operation answers, and the ledger it leaves. -/
def serve (schema : Schema) (format : RecordFormat) (ledger : Ledger) :
    Operation → Answer × Ledger
  | .put item =>
    match format.encode item with
    | .error e => (.error e, ledger)
    | .ok _ =>
      match keyOf format item with
      | .error e => (.error e, ledger)
      | .ok key => (.ok .done, put ledger key item)
  | .get key =>
    match format.encodeKey key with
    | .error e => (.error e, ledger)
    | .ok bytes =>
      match ledger.find? (·.1 = bytes) with
      | none => (.error .noKey, ledger)
      | some entry => (.ok (.item entry.2), ledger)
  | .filter predicate =>
    match predicate.check schema with
    | .error e => (.error e, ledger)
    | .ok () => (.ok (.items ((ledger.map (·.2)).filter fun item ↦ predicate.holds item)), ledger)
  | .compact | .stats => (.ok (.count ledger.length), ledger)
  | .sync | .reopen _ => (.ok .done, ledger)

/-- What operations one after the other answer. -/
def answers (schema : Schema) (format : RecordFormat) (ledger : Ledger) :
    List Operation → List Answer
  | [] => []
  | operation :: rest =>
    (serve schema format ledger operation).1 ::
      answers schema format (serve schema format ledger operation).2 rest

/-! ## Rows and entries -/

/-- Whether the rows that count read as the entries of a ledger. -/
def Reflects (format : RecordFormat) (rows : List Row) (ledger : Ledger) : Prop :=
  (latest rows).map (fun row ↦ (row.1, format.decode row.2)) =
    ledger.map fun entry ↦ (entry.1, .ok entry.2)

variable {format : RecordFormat} {rows : List Row} {ledger : Ledger}

/-- The key of an item that has a record is the one read out of the record. -/
theorem keyOf_of_encode {item : Item} {record key : Bytes} (h : format.encode item = .ok record)
    (hrow : format.IsRow (key, record)) : keyOf format item = .ok key := by
  obtain ⟨value, hvalue⟩ := RecordFormat.exists_key_of_encode h
  have hread := RecordFormat.readKey_of_encode h hvalue
  calc
    keyOf format item = format.encodeKey value := by rw [keyOf, hvalue]
    _ = .ok (Field.payload value) := RecordFormat.encodeKey_of_encode h hvalue
    _ = .ok key := congrArg Except.ok (Except.ok.inj (hread.symm.trans hrow.readKey))

/-- One more row is one more write. -/
theorem Reflects.put (h : Reflects format rows ledger) {item : Item} {record key : Bytes}
    (hencode : format.encode item = .ok record) :
    Reflects format (rows ++ [(key, record)]) (put ledger key item) := by
  have hcommute : ∀ {α β : Type} (f : α → Bytes × β) (xs : List α),
      (xs.filter fun x ↦ (f x).1 ≠ key).map f = (xs.map f).filter fun entry ↦ entry.1 ≠ key := by
    intro α β f xs
    rw [List.filter_map]
    rfl
  have hlatest : latest (rows ++ [(key, record)]) =
      (latest rows).filter (fun row ↦ row.1 ≠ key) ++ [(key, record)] :=
    latestBy_concat _ rows (key, record)
  calc
    (latest (rows ++ [(key, record)])).map (fun row ↦ (row.1, format.decode row.2)) =
        ((latest rows).map (fun row ↦ (row.1, format.decode row.2))).filter
            (fun entry ↦ entry.1 ≠ key) ++ [(key, .ok item)] := by
      rw [hlatest, List.map_append, hcommute, List.map_singleton,
        RecordFormat.decode_of_encode hencode]
    _ = (ledger.map fun entry ↦ (entry.1, .ok entry.2)).filter (fun entry ↦ entry.1 ≠ key) ++
          [(key, .ok item)] := by rw [h]
    _ = (Ledger.put ledger key item).map fun entry ↦ (entry.1, .ok entry.2) := by
      rw [← hcommute, Ledger.put, List.map_append, List.map_singleton]

theorem Reflects.length_eq (h : Reflects format rows ledger) :
    (latest rows).length = ledger.length := by
  have hlength := congrArg List.length h
  rwa [List.length_map, List.length_map] at hlength

/-- A row is found where an entry is. -/
theorem Reflects.find? (h : Reflects format rows ledger) (key : Bytes) :
    ((latest rows).find? (·.1 = key)).map (fun row ↦ format.decode row.2) =
      (ledger.find? (·.1 = key)).map fun entry ↦ .ok entry.2 := by
  have hfind := congrArg (fun entries ↦ (entries.find? (·.1 = key)).map (·.2)) h
  simpa only [List.find?_map, Option.map_map, Function.comp_def] using hfind

theorem Reflects.pick (h : Reflects format rows ledger) (predicate : Predicate) :
    Table.pick format predicate ((latest rows).map (·.2)) =
      .ok ((ledger.map (·.2)).filter fun item ↦ predicate.holds item) := by
  apply Table.pick_of_decode
  have hitems := congrArg (List.map (·.2)) h
  simpa only [List.map_map, Function.comp_def] using hitems

/-! ## Operations -/

/-- **An operation on rows is one on the ledger**: it answers the same, unless it is a compaction
that cannot make its file, and what it leaves reads as the ledger it leaves. -/
theorem Reflects.serve (h : Reflects format rows ledger) (schema : Schema)
    (fault? : Option FileFault) (operation : Operation) :
    Reflects format (TableStore.serve schema format fault? rows operation).2
        (serve schema format ledger operation).2 ∧
      ((TableStore.serve schema format fault? rows operation).1 =
          (Ledger.serve schema format ledger operation).1 ∨
        ∃ fault, fault? = some fault ∧
          (TableStore.serve schema format fault? rows operation).1 = .error (.file fault)) := by
  cases operation with
  | put item =>
    dsimp only [TableStore.serve, Ledger.serve]
    cases hencode : format.encode item with
    | error e => exact ⟨h, .inl rfl⟩
    | ok record =>
      obtain ⟨key, hrow⟩ := Table.exists_isRow_of_encode hencode
      have hdecode : format.decodeKey record = .ok key := hrow.decodeKey
      dsimp only
      rw [keyOf_of_encode hencode hrow, hdecode]
      exact ⟨h.put hencode, .inl rfl⟩
  | get key =>
    dsimp only [TableStore.serve, Ledger.serve]
    cases format.encodeKey key with
    | error e => exact ⟨h, .inl rfl⟩
    | ok bytes =>
      have hfind := h.find? bytes
      dsimp only
      cases hrow : (latest rows).find? (·.1 = bytes) with
      | none =>
        rw [hrow, Option.map_none, eq_comm, Option.map_eq_none_iff] at hfind
        rw [hfind]
        exact ⟨h, .inl rfl⟩
      | some row =>
        rw [hrow, Option.map_some, eq_comm, Option.map_eq_some_iff] at hfind
        obtain ⟨entry, hentry, hitem⟩ := hfind
        rw [hentry]
        dsimp only
        rw [← hitem]
        exact ⟨h, .inl rfl⟩
  | filter predicate =>
    dsimp only [TableStore.serve, Ledger.serve]
    cases predicate.check schema with
    | error e => exact ⟨h, .inl rfl⟩
    | ok _ =>
      dsimp only
      rw [h.pick]
      exact ⟨h, .inl rfl⟩
  | compact =>
    dsimp only [TableStore.serve, Ledger.serve]
    cases fault? with
    | some fault => exact ⟨h, .inr ⟨fault, rfl, rfl⟩⟩
    | none =>
      dsimp only
      rw [h.length_eq]
      refine ⟨?_, .inl rfl⟩
      rw [Reflects, latest, latest, latestBy_latestBy]
      exact h
  | sync => exact ⟨h, .inl rfl⟩
  | stats =>
    dsimp only [TableStore.serve, Ledger.serve]
    rw [h.length_eq]
    exact ⟨h, .inl rfl⟩
  | reopen policy => exact ⟨h, .inl rfl⟩

end Ledger

/-! ## Sessions -/

/-- A compaction can make its file in a directory if the name of the file is not too long. -/
theorem Table.entryFault?_compactFile {disk : Disk} {directory : Place}
    (hdirectory : disk.node? directory.path = some .directory)
    (hlength : (compactFile directory).length ≤ Disk.textLimit) :
    disk.entryFault? (compactFile directory) = none := by
  rw [entryFault?_compactFile_eq hdirectory, if_neg (Nat.not_lt.mpr hlength)]

/-- **A session answers what the ledger says**, unless an operation meets a failure of the file
system, and none does if the name of the file that a compaction makes is not too long. -/
theorem Session.run_of_reflects {table : Table} {disk : Disk} {schema : Schema}
    {format : RecordFormat} {directory : Place} {rows : List Row} {ledger : Ledger}
    (hstores : table.Stores disk rows) (hschema : table.schema = schema)
    (hformat : table.format = format) (hplace : table.directory = directory)
    (hdirectory : disk.node? directory.path = some .directory)
    (hreflects : Ledger.Reflects format rows ledger) (operations : List Operation)
    (hfile : (∀ fault, .error (.file fault) ∉ (Session.run ⟨table, disk⟩ operations).1) ∨
      (Table.compactFile directory).length ≤ Disk.textLimit) :
    ∃ last, Session.run ⟨table, disk⟩ operations =
      (Ledger.answers schema format ledger operations, some last) := by
  induction operations generalizing table disk rows ledger with
  | nil => exact ⟨⟨table, disk⟩, rfl⟩
  | cons operation rest ih =>
    obtain ⟨after, hstep, hafter, hcontinues⟩ := step_of_stores hstores operation
    rw [hschema, hformat, hplace] at hstep hafter
    obtain ⟨hleft, hanswer⟩ := hreflects.serve schema
      (disk.entryFault? (Table.compactFile directory)) operation
    have hrun := run_cons hstep rest
    have hsame : (serve schema format (disk.entryFault? (Table.compactFile directory)) rows
        operation).1 = (Ledger.serve schema format ledger operation).1 := by
      rcases hanswer with hsame | ⟨fault, hfault, herror⟩
      · exact hsame
      · rcases hfile with hnone | hlength
        · rw [hrun, herror] at hnone
          exact absurd (List.mem_cons_self ..) (hnone fault)
        · rw [Table.entryFault?_compactFile hdirectory hlength] at hfault
          cases hfault
    have hrest : (∀ fault, .error (.file fault) ∉ (after.run rest).1) ∨
        (Table.compactFile directory).length ≤ Disk.textLimit := by
      refine hfile.imp_left ?_
      intro hnone fault hmem
      rw [hrun] at hnone
      exact hnone fault (List.mem_cons_of_mem _ hmem)
    have hstill : after.disk.node? directory.path = some .directory := by
      rw [← hdirectory, ← hplace]
      exact hcontinues.elsewhere _ (Place.path_enter_ne_self _ _).symm
        (Place.path_enter_ne_self _ _).symm
    obtain ⟨last, hlast⟩ := ih hafter (hcontinues.schema.trans hschema)
      (hcontinues.format.trans hformat) (hcontinues.directory.trans hplace) hstill hleft hrest
    refine ⟨last, ?_⟩
    calc
      Session.run ⟨table, disk⟩ (operation :: rest) =
          (_ :: (after.run rest).1, (after.run rest).2) := hrun
      _ = ((Ledger.serve schema format ledger operation).1 ::
            Ledger.answers schema format (Ledger.serve schema format ledger operation).2 rest,
          some last) := by rw [hsame, hlast]
      _ = (Ledger.answers schema format ledger (operation :: rest), some last) := rfl

/-- **A table created on a disk answers as a list of items does**, whatever is done with it in
whatever order. -/
theorem Session.answers_of_create {disk created : Disk} {directory : Place} {schema : Schema}
    {policy : SyncPolicy} {table : Table} (htree : disk.IsTree)
    (hcreate : Table.create disk directory schema policy = (.ok table, created))
    (operations : List Operation) :
    ∃ format, RecordFormat.ofSchema schema = .ok format ∧
      ((∀ fault, .error (.file fault) ∉ (Session.run ⟨table, created⟩ operations).1) ∨
          (Table.compactFile directory).length ≤ Disk.textLimit →
        ∃ last, Session.run ⟨table, created⟩ operations =
          (Ledger.answers schema format [] operations, some last)) := by
  obtain ⟨hstores, rfl, rfl, hdirectory⟩ := Table.stores_of_create htree hcreate
  refine ⟨table.format, hstores.format, ?_⟩
  have hempty : Ledger.Reflects table.format [] [] := rfl
  exact run_of_reflects hstores rfl rfl rfl hdirectory hempty operations

/-- A table of orders on an empty disk, closed and opened after a compaction. -/
theorem Session.answers_of_create_orders :
    Disk.empty.IsTree ∧ ∃ table created,
      Table.create Disk.empty ordersPlace RecordFormat.ordersSchema .everyRecord =
          (.ok table, created) ∧
        (Table.compactFile ordersPlace).length ≤ Disk.textLimit ∧ ∃ format last,
          RecordFormat.ofSchema RecordFormat.ordersSchema = .ok format ∧
            Session.run ⟨table, created⟩ [.put RecordFormat.orderItem, .compact,
                .reopen (.every 2), .get (.integer (-7))] =
              (Ledger.answers RecordFormat.ordersSchema format [] [.put RecordFormat.orderItem,
                .compact, .reopen (.every 2), .get (.integer (-7))], some last) := by
  have hlength : (Table.compactFile ordersPlace).length ≤ Disk.textLimit := by decide +kernel
  have hcreates : (Table.create Disk.empty ordersPlace RecordFormat.ordersSchema
      .everyRecord).1.isOk = true := by decide +kernel
  cases hcreate : Table.create Disk.empty ordersPlace RecordFormat.ordersSchema .everyRecord with
  | mk outcome created =>
    cases outcome with
    | error e => rw [hcreate] at hcreates; cases hcreates
    | ok table =>
      obtain ⟨format, hformat, hanswers⟩ :=
        Session.answers_of_create Disk.isTree_empty hcreate [.put RecordFormat.orderItem,
          .compact, .reopen (.every 2), .get (.integer (-7))]
      obtain ⟨last, hlast⟩ := hanswers (.inr hlength)
      exact ⟨Disk.isTree_empty, table, created, rfl, hlength, format, last, hformat, hlast⟩

end TableStore

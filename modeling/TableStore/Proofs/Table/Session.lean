import TableStore.Proofs.Table.Changes
import TableStore.Proofs.Table.Lifecycle

/-!
# Sessions

A session is an open table with its disk, to which operations are applied one after the other.
Closing the table and opening it again is one of them, and ends the session if it fails. What an
operation answers and which rows it leaves can be read off the rows that the table stores, so that
along a session the rows are all that has to be followed.
-/

namespace TableStore

/-- What can be done with an open table. -/
inductive Operation where
  | put (item : Item)
  | get (key : Value)
  | filter (predicate : Predicate)
  | compact
  | sync
  | stats
  /-- Close the table and open it again. -/
  | reopen (policy : SyncPolicy)

/-- What an operation yields. -/
inductive Reply where
  | done
  | item (item : Item)
  | items (items : List Item)
  /-- The number of keys, or of records kept. -/
  | count (count : Nat)

/-- A reply, or the failure of the operation. -/
abbrev Answer := Except Failure Reply

/-- An open table with its disk. -/
structure Session where
  table : Table
  disk : Disk

namespace Session

/-- Applies an operation. There is no table any more if it cannot be opened again. -/
def step (session : Session) : Operation → Answer × Option Session
  | .put item =>
    match session.table.put session.disk item with
    | (outcome, table, disk) => (outcome.map fun _ ↦ .done, some ⟨table, disk⟩)
  | .get key => ((session.table.get session.disk key).map .item, some session)
  | .filter predicate => ((session.table.filter session.disk predicate).map .items, some session)
  | .compact =>
    match session.table.compact session.disk with
    | (outcome, table, disk) =>
      (outcome.map fun report ↦ .count report.recordsKept, some ⟨table, disk⟩)
  | .sync =>
    match session.table.sync session.disk with
    | (outcome, table) => (outcome.map fun _ ↦ .done, some ⟨table, session.disk⟩)
  | .stats => (.ok (.count session.table.stats.liveKeys), some session)
  | .reopen policy =>
    match Table.openAt session.disk session.table.directory session.table.schema.name policy with
    | (.error e, _) => (.error e, none)
    | (.ok table, disk) => (.ok .done, some ⟨table, disk⟩)

/-- Applies operations one after the other. Returns the answers and, unless the session has ended
before, where it has come to. -/
def run (session : Session) : List Operation → List Answer × Option Session
  | [] => ([], some session)
  | operation :: rest =>
    match session.step operation with
    | (answer, none) => ([answer], none)
    | (answer, some after) =>
      match run after rest with
      | (answers, last) => (answer :: answers, last)

end Session

/-! ## Rows under operations -/

/-- What an operation on a table that stores rows answers, and the rows it leaves. The fault is the
one that keeps a compaction from making its file. -/
def serve (schema : Schema) (format : RecordFormat) (fault? : Option FileFault)
    (rows : List Row) : Operation → Answer × List Row
  | .put item =>
    match format.encode item with
    | .error e => (.error e, rows)
    | .ok record =>
      match format.decodeKey record with
      | .error e => (.error e, rows)
      | .ok key => (.ok .done, rows ++ [(key, record)])
  | .get key =>
    match format.encodeKey key with
    | .error e => (.error e, rows)
    | .ok bytes =>
      match (latest rows).find? (·.1 = bytes) with
      | none => (.error .noKey, rows)
      | some row => ((format.decode row.2).map .item, rows)
  | .filter predicate =>
    match predicate.check schema with
    | .error e => (.error e, rows)
    | .ok () =>
      ((Table.pick format predicate ((latest rows).map (·.2))).map .items, rows)
  | .compact =>
    match fault? with
    | some fault => (.error (.file fault), rows)
    | none => (.ok (.count (latest rows).length), latest rows)
  | .sync => (.ok .done, rows)
  | .stats => (.ok (.count (latest rows).length), rows)
  | .reopen _ => (.ok .done, rows)

/-- An operation leaves the rows as they are, adds the row of an item, or keeps those that count. -/
theorem rows_of_serve (schema : Schema) (format : RecordFormat) (fault? : Option FileFault)
    (rows : List Row) (operation : Operation) :
    (serve schema format fault? rows operation).2 = rows ∨
      (serve schema format fault? rows operation).2 = latest rows ∨
      ∃ item record key, format.encode item = .ok record ∧ format.IsRow (key, record) ∧
        (serve schema format fault? rows operation).2 = rows ++ [(key, record)] := by
  cases operation with
  | put item =>
    dsimp only [serve]
    cases hencode : format.encode item with
    | error e => exact .inl rfl
    | ok record =>
      obtain ⟨key, hrow⟩ := Table.exists_isRow_of_encode hencode
      have hdecode : format.decodeKey record = .ok key := hrow.decodeKey
      dsimp only
      rw [hdecode]
      exact .inr (.inr ⟨item, record, key, hencode, hrow, rfl⟩)
  | get key =>
    left
    dsimp only [serve]
    split
    · rfl
    · split <;> rfl
  | filter predicate =>
    left
    dsimp only [serve]
    split <;> rfl
  | compact =>
    cases fault? with
    | some fault => exact .inl rfl
    | none => exact .inr (.inl rfl)
  | sync => exact .inl rfl
  | stats => exact .inl rfl
  | reopen policy => exact .inl rfl

namespace Session

variable {table : Table} {disk : Disk} {rows : List Row}

/-- **An operation does what the rows say**, and the table goes on storing rows. -/
theorem step_of_stores (h : table.Stores disk rows) (operation : Operation) :
    ∃ after : Session, step ⟨table, disk⟩ operation =
        ((serve table.schema table.format (disk.entryFault? (Table.compactFile table.directory))
          rows operation).1, some after) ∧
      after.table.Stores after.disk (serve table.schema table.format
        (disk.entryFault? (Table.compactFile table.directory)) rows operation).2 ∧
      table.Continues disk after.table after.disk := by
  have hsame := Table.Continues.refl table disk
  cases operation with
  | put item =>
    dsimp only [step, serve]
    cases hencode : table.format.encode item with
    | error e =>
      rw [Table.put_of_error hencode]
      exact ⟨⟨table, disk⟩, rfl, h, hsame⟩
    | ok record =>
      obtain ⟨key, hrow⟩ := Table.exists_isRow_of_encode hencode
      obtain ⟨after, left, hput, hstores, hcontinues⟩ := h.put hencode hrow
      have hdecode : table.format.decodeKey record = .ok key := hrow.decodeKey
      rw [hput]
      dsimp only
      rw [hdecode]
      exact ⟨⟨after, left⟩, rfl, hstores, hcontinues⟩
  | get key =>
    dsimp only [step, serve]
    rw [h.get]
    cases table.format.encodeKey key with
    | error e => exact ⟨⟨table, disk⟩, rfl, h, hsame⟩
    | ok bytes =>
      dsimp only
      cases (latest rows).find? (·.1 = bytes) with
      | none => exact ⟨⟨table, disk⟩, rfl, h, hsame⟩
      | some row => exact ⟨⟨table, disk⟩, rfl, h, hsame⟩
  | filter predicate =>
    dsimp only [step, serve]
    rw [h.filter]
    cases predicate.check table.schema with
    | error e => exact ⟨⟨table, disk⟩, rfl, h, hsame⟩
    | ok _ => exact ⟨⟨table, disk⟩, rfl, h, hsame⟩
  | compact =>
    dsimp only [step, serve]
    cases hfault : disk.entryFault? (Table.compactFile table.directory) with
    | some fault =>
      rw [h.compact_of_fault hfault]
      exact ⟨⟨table, disk⟩, rfl, h, hsame⟩
    | none =>
      obtain ⟨after, left, hcompact, hstores, hcontinues⟩ := h.compact hfault
      rw [hcompact]
      exact ⟨⟨after, left⟩, rfl, hstores, hcontinues⟩
  | sync =>
    obtain ⟨after, hsync, hstores, hcontinues⟩ := h.sync
    dsimp only [step, serve]
    rw [hsync]
    exact ⟨⟨after, disk⟩, rfl, hstores, hcontinues⟩
  | stats =>
    dsimp only [step, serve]
    rw [h.stats]
    exact ⟨⟨table, disk⟩, rfl, h, hsame⟩
  | reopen policy =>
    obtain ⟨after, hopen, hstores, hcontinues⟩ := h.reopen policy
    dsimp only [step, serve]
    rw [hopen]
    exact ⟨⟨after, disk⟩, rfl, hstores, hcontinues⟩

theorem run_cons {session after : Session} {operation : Operation} {answer : Answer}
    (h : session.step operation = (answer, some after)) (rest : List Operation) :
    session.run (operation :: rest) = (answer :: (after.run rest).1, (after.run rest).2) := by
  rw [run, h]

/-- **A session on a table that stores rows never ends**: the table stores rows at any time, and
what every operation preserves of the rows holds of them. -/
theorem run_of_stores {schema : Schema} {format : RecordFormat} {P : List Row → Prop}
    (hserve : ∀ fault? rows operation, P rows → P (serve schema format fault? rows operation).2)
    (h : table.Stores disk rows) (hschema : table.schema = schema)
    (hformat : table.format = format) (hrows : P rows) (operations : List Operation) :
    ∃ answers last others, run ⟨table, disk⟩ operations = (answers, some last) ∧
      last.table.Stores last.disk others ∧ P others ∧
      table.Continues disk last.table last.disk := by
  induction operations generalizing table disk rows with
  | nil => exact ⟨[], ⟨table, disk⟩, rows, rfl, h, hrows, Table.Continues.refl _ _⟩
  | cons operation rest ih =>
    obtain ⟨after, hstep, hstores, hcontinues⟩ := step_of_stores h operation
    rw [hschema, hformat] at hstep hstores
    obtain ⟨answers, last, others, hrun, hlast, hothers, hrest⟩ :=
      ih hstores (hcontinues.schema.trans hschema) (hcontinues.format.trans hformat)
        (hserve _ _ _ hrows)
    have hanswers := run_cons hstep rest
    rw [hrun] at hanswers
    exact ⟨_, last, others, hanswers, hlast, hothers, hcontinues.trans hrest⟩

end Session

/-- The directory of a table of orders. -/
def ordersPlace : Place := ⟨["orders"], ⟨[], 0, ["orders"]⟩⟩

end TableStore

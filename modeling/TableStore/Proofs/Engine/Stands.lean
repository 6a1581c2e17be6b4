import TableStore.Proofs.Engine.Shelves

/-!
# What stands in the directory of a name

In the directory of a name there is a table as the shelf of that name describes it, or nothing at
all. A call that names the table answers what the shelf answers, leaves there what the shelf comes
to, and spares everything that belongs to other names.
-/

namespace TableStore.Engine

/-! ## The directory of one table -/

variable {disk other : Disk} {root : Place} {name : String}

/-- What stands in the directory of a name: a table as its shelf describes it, or nothing. -/
inductive Stands (disk : Disk) (root : Place) (name : String) :
    Option Table → Option Shelf → Prop where
  | nothing (empty : ∀ path, (root.enter name).path <+: path → disk.node? path = none) :
      Stands disk root name none none
  | table {table : Table} {shelf : Shelf} (describes : shelf.Describes table disk (root.enter name))
      (called : shelf.schema.name = name) : Stands disk root name (some table) (some shelf)

/-- What stands in the directory of a name does not depend on what is elsewhere. -/
theorem Stands.congr {table? : Option Table} {shelf? : Option Shelf}
    (h : Stands disk root name table? shelf?)
    (hsame : ∀ path, (root.enter name).path <+: path → other.node? path = disk.node? path) :
    Stands other root name table? shelf? := by
  cases h with
  | nothing hempty =>
    exact .nothing fun path hwithin ↦ (hsame path hwithin).trans (hempty path hwithin)
  | table hdescribes hcalled => exact .table (hdescribes.congr hsame) hcalled

/-- There is a table where there is a shelf. -/
theorem Stands.isSome_eq {table? : Option Table} {shelf? : Option Shelf}
    (h : Stands disk root name table? shelf?) : table?.isSome = shelf?.isSome := by
  cases h with
  | nothing _ => rfl
  | table _ _ => rfl

/-- The directories of two names have nothing in common. -/
theorem not_within_of_ne {other : String} (hne : other ≠ name) {path : Path}
    (hwithin : (root.enter other).path <+: path) : ¬ (root.enter name).path <+: path := by
  intro hself
  have hlength : (root.enter other).path.length = (root.enter name).path.length := by
    rw [Place.path_enter, Place.path_enter, List.length_append, List.length_append]
    rfl
  have hsame : (root.enter other).path = (root.enter name).path :=
    (List.prefix_of_prefix_length_le hwithin hself (Nat.le_of_eq hlength)).eq_of_length hlength
  exact hne (Place.path_enter_inj.mp hsame)

/-! ## Changes to one table -/

section Tables

variable {engine : Engine} {table : Table}

theorem table_of_some (h : engine.tables[name]? = some table) : engine.table name = .ok table := by
  rw [Engine.table, h]

theorem table_of_none (h : engine.tables[name]? = none) :
    engine.table name = .error (.noTable name) := by
  rw [Engine.table, h]

theorem tables_setTable (engine : Engine) (name : String) (table : Table) (asked : String) :
    (engine.setTable name table).tables[asked]? =
      if name = asked then some table else engine.tables[asked]? := by
  rw [setTable, Std.ExtTreeMap.getElem?_insert]
  simp only [Std.LawfulEqCmp.compare_eq_iff_eq]

theorem openTables_nil (disk : Disk) (engine : Engine) :
    openTables disk engine [] = (.ok engine, disk) := by
  rfl

theorem openTables_cons (disk : Disk) (engine : Engine) (name : String) (rest : List String) :
    openTables disk engine (name :: rest) =
      match Table.openAt disk (engine.root.enter name) name engine.config.syncPolicy with
      | (.error e, left) => (.error e, left)
      | (.ok table, left) => openTables left (engine.setTable name table) rest := by
  rfl

/-- A table that can be opened is one more table, and the next one follows. -/
theorem openTables_cons_of_ok {left : Disk}
    (h : Table.openAt disk (engine.root.enter name) name engine.config.syncPolicy =
      (.ok table, left)) (rest : List String) :
    openTables disk engine (name :: rest) = openTables left (engine.setTable name table) rest := by
  rw [openTables_cons, h]

end Tables

/-- Whether nothing has changed in a service but what belongs to one name. -/
structure Spares (name : String) (service after : Service) : Prop where
  current : after.current = service.current
  root : after.engine.root = service.engine.root
  config : after.engine.config = service.engine.config
  tables : ∀ other, other ≠ name → after.engine.tables[other]? = service.engine.tables[other]?
  beside : ∀ path, ¬ (service.engine.root.enter name).path <+: path →
    after.disk.node? path = service.disk.node? path

theorem Spares.refl (name : String) (service : Service) : Spares name service service :=
  ⟨rfl, rfl, rfl, fun _ _ ↦ rfl, fun _ _ ↦ rfl⟩

theorem Spares.setTable (service : Service) (table : Table) {left : Disk}
    (hbeside : ∀ path, ¬ (service.engine.root.enter name).path <+: path →
      left.node? path = service.disk.node? path) :
    Spares name service
      { service with engine := service.engine.setTable name table, disk := left } := by
  refine ⟨rfl, rfl, rfl, ?_, hbeside⟩
  intro other hne
  dsimp only
  rw [tables_setTable, if_neg hne.symm]

section Step

variable {service : Service} {shelf? : Option Shelf}

/-- A table in a new state stands in its directory, and spares all others. -/
theorem stands_setTable {shelf : Shelf} {table : Table} {left : Disk}
    (hdescribes : shelf.Describes table left (service.engine.root.enter name))
    (hcalled : shelf.schema.name = name) :
    Stands left service.engine.root name (service.engine.setTable name table).tables[name]?
      (some shelf) := by
  rw [tables_setTable, if_pos rfl]
  exact .table hdescribes hcalled

/-- A table is created where nothing stands, unless a text or a name is too long. -/
theorem step_create {route : Route} {schema : Schema}
    (hlocate : service.disk.locate route = .ok service.engine.root)
    (hroot : service.disk.node? service.engine.root.path = some .directory)
    (hstands : Stands service.disk service.engine.root schema.name
      service.engine.tables[schema.name]? shelf?) :
    ∃ after, service.step (.create schema) =
        (((Call.create schema).serve (service.engine.root.enter schema.name) shelf?).1,
          some after) ∧
      Spares schema.name service after ∧
      Stands after.disk service.engine.root schema.name after.engine.tables[schema.name]?
        ((Call.create schema).serve (service.engine.root.enter schema.name) shelf?).2 := by
  dsimp only [Service.step, createTable, Call.serve]
  have hsame := Spares.refl schema.name service
  cases hvalid : schema.validate with
  | error e => exact ⟨service, rfl, hsame, hstands⟩
  | ok _ =>
    dsimp only
    rw [Std.ExtTreeMap.contains_eq_isSome_getElem?]
    generalize htable : service.engine.tables[schema.name]? = table? at hstands
    cases hstands with
    | table hdescribes hcalled =>
      refine ⟨service, rfl, hsame, ?_⟩
      rw [htable]
      exact .table hdescribes hcalled
    | nothing hempty =>
      dsimp only [Option.isSome_none, Shelf.create]
      rw [if_neg Bool.false_ne_true]
      by_cases hlong : Disk.nameLimit < schema.name.utf8ByteSize ∨
          Disk.textLimit < (Table.schemaFile (service.engine.root.enter schema.name)).length
      · obtain ⟨left, hcreate, hleft⟩ := Table.create_of_long hlocate hroot hempty hvalid hlong
          service.engine.config.syncPolicy
        rw [hcreate, if_pos hlong]
        refine ⟨{ service with disk := left }, rfl,
          ⟨rfl, rfl, rfl, fun _ _ ↦ rfl, fun path _ ↦ hleft path⟩, ?_⟩
        dsimp only
        rw [htable]
        exact .nothing fun path hwithin ↦ (hleft path).trans (hempty path hwithin)
      · obtain ⟨hname, hlength⟩ := not_or.mp hlong
        obtain ⟨table, left, hcreate, hholds, hbeside⟩ := Table.create_of_short hroot hempty hvalid
          (Nat.not_lt.mp hname) (Nat.not_lt.mp hlength) service.engine.config.syncPolicy
        obtain ⟨format, hformat⟩ := (Schema.isValid_of_validate hvalid).exists_format
        rw [hcreate, if_neg hlong, hformat]
        exact ⟨_, rfl, .setTable service table hbeside, stands_setTable ⟨hholds, hformat⟩ rfl⟩

/-- **A call does what the shelf of the name it names says.** -/
theorem step_of_stands {route : Route} {call : Call}
    (hlocate : service.disk.locate route = .ok service.engine.root)
    (hroot : service.disk.node? service.engine.root.path = some .directory)
    (hstands : Stands service.disk service.engine.root name service.engine.tables[name]? shelf?)
    (hcall : call.table? = some name) :
    ∃ after, service.step call =
        ((call.serve (service.engine.root.enter name) shelf?).1, some after) ∧
      Spares name service after ∧
      Stands after.disk service.engine.root name after.engine.tables[name]?
        (call.serve (service.engine.root.enter name) shelf?).2 := by
  have hsame := Spares.refl name service
  have hstood := hstands
  generalize htable : service.engine.tables[name]? = table? at hstands
  cases hstands with
  | nothing hempty =>
    cases call with
    | create schema =>
      cases hcall
      exact step_create hlocate hroot hstood
    | sync | reopen policy createIfMissing => cases hcall
    | put name item | get name key | filter name predicate | compact name | stats name =>
      cases hcall
      refine ⟨service, ?_, hsame, hstood⟩
      simp only [Service.step, Engine.put, Engine.get, Engine.filter, Engine.compact,
        table_of_none htable, Call.serve]
      rfl
  | table hdescribes hcalled =>
    cases call with
    | create schema =>
      cases hcall
      exact step_create hlocate hroot hstood
    | sync | reopen policy createIfMissing => cases hcall
    | put name item =>
      cases hcall
      obtain ⟨after, left, hput, hafter, hcontinues⟩ := hdescribes.put item
      dsimp only [Service.step, Engine.put, Call.serve]
      rw [table_of_some htable]
      dsimp only
      rw [hput]
      exact ⟨_, rfl, .setTable service after fun _ ↦ hdescribes.holds.beside hcontinues,
        stands_setTable hafter ((congrArg Schema.name (Shelf.schema_put _ _)).trans hcalled)⟩
    | compact name =>
      cases hcall
      obtain ⟨after, left, hcompact, hafter, hcontinues⟩ := hdescribes.compact
      dsimp only [Service.step, Engine.compact, Call.serve]
      rw [table_of_some htable]
      dsimp only
      rw [hcompact]
      exact ⟨_, rfl, .setTable service after fun _ ↦ hdescribes.holds.beside hcontinues,
        stands_setTable hafter ((congrArg Schema.name (Shelf.schema_compact _ _)).trans hcalled)⟩
    | get name key =>
      cases hcall
      refine ⟨service, ?_, hsame, hstood⟩
      dsimp only [Service.step, Engine.get, Call.serve]
      rw [table_of_some htable, ← hdescribes.get]
    | filter name predicate =>
      cases hcall
      refine ⟨service, ?_, hsame, hstood⟩
      dsimp only [Service.step, Engine.filter, Call.serve]
      rw [table_of_some htable, ← hdescribes.filter]
    | stats name =>
      cases hcall
      refine ⟨service, ?_, hsame, hstood⟩
      dsimp only [Service.step, Call.serve]
      rw [table_of_some htable, ← hdescribes.stats]
      rfl

end Step

end TableStore.Engine

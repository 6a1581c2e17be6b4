import TableStore.Proofs.Engine.Opening

/-!
# An engine and its shelves

An engine houses shelves if it has a table for each of them, and nothing stands in the directory of
any other name. A search of the data directory then finds just these tables, so that the engine can
be closed and opened again at any time. Every call keeps it so, and is answered as by the shelves.
-/

namespace TableStore.Engine

variable {root : Place} {name : String}

/-- Whether a route leads to a directory with nothing in it. -/
structure IsEmptyAt (disk : Disk) (route : Route) (root : Place) : Prop where
  locate : disk.locate route = .ok root
  isDirectory : disk.node? root.path = some .directory
  empty : ∀ path, root.path <+: path → path ≠ root.path → disk.node? path = none

/-- Whether a service has a table for every shelf and nothing else in its data directory, which was
empty on the disk from which it has come. -/
structure Houses (base : Disk) (route : Route) (root : Place) (service : Service)
    (shelves : Shelves) : Prop where
  place : service.engine.root = root
  route : Route.ofText service.current service.engine.config.dataDirectory = route
  /-- Outside the data directory the disk is as it was. -/
  outside : ∀ path, (root.path <+: path → path = root.path) →
    service.disk.node? path = base.node? path
  stands : ∀ name, Stands service.disk root name service.engine.tables[name]? (shelves name)

namespace Houses

variable {base : Disk} {route : Route} {service after : Service} {shelves : Shelves}
  (hbase : IsEmptyAt base route root)

include hbase in
/-- The route to the data directory leads there at any time: it never went through a table. -/
theorem located (h : Houses base route root service shelves) :
    service.disk.locate route = .ok root ∧ service.disk.node? root.path = some .directory := by
  constructor
  · apply Disk.locate_of_directories _ hbase.locate
    -- On the empty disk no directory below the data directory was there to go through.
    intro path hdirectory
    rw [h.outside path _, hdirectory]
    intro hwithin
    apply Classical.byContradiction
    intro hbelow
    rw [hbase.empty path hwithin hbelow] at hdirectory
    cases hdirectory
  · rw [h.outside root.path fun _ ↦ rfl, hbase.isDirectory]

/-- When one name is served, all others stay as they are. -/
theorem update (h : Houses base route root service shelves) {shelf? : Option Shelf}
    (hspares : Spares name service after)
    (hstands : Stands after.disk root name after.engine.tables[name]? shelf?) :
    Houses base route root after (Function.update shelves name shelf?) where
  place := hspares.root.trans h.place
  route := by rw [hspares.current, hspares.config, h.route]
  outside := by
    intro path houtside
    -- The data directory itself is not in the directory of a name, and nothing outside it is.
    have hbeside : ¬ (root.enter name).path <+: path := by
      intro hwithin
      have hpath := houtside ((List.prefix_append _ _).trans hwithin)
      have hlength := hwithin.length_le
      rw [hpath, Place.path_enter, List.length_append, List.length_singleton] at hlength
      omega
    rw [hspares.beside path (h.place ▸ hbeside), h.outside path houtside]
  stands := by
    intro other
    by_cases hname : other = name
    · subst hname
      rw [Function.update_self]
      exact hstands
    · rw [Function.update_of_ne hname, hspares.tables other hname]
      apply (h.stands other).congr
      intro path hwithin
      exact hspares.beside path (h.place ▸ not_within_of_ne hname hwithin)

/-- Where there is a shelf there is its table. -/
theorem exists_table (h : Houses base route root service shelves)
    (hsome : (shelves name).isSome = true) :
    ∃ table shelf, service.engine.tables[name]? = some table ∧ shelves name = some shelf ∧
      shelf.Describes table service.disk (root.enter name) ∧ shelf.schema.name = name := by
  have hstands := h.stands name
  generalize service.engine.tables[name]? = table?, shelves name = shelf? at hstands hsome
  cases hstands with
  | nothing _ => cases hsome
  | table hdescribes hcalled => exact ⟨_, _, rfl, rfl, hdescribes, hcalled⟩

/-- The names of the tables are those of the shelves. -/
theorem mem_names (h : Houses base route root service shelves) :
    name ∈ service.engine.names ↔ (shelves name).isSome = true := by
  rw [mem_names_iff, (h.stands name).isSome_eq]

/-! ## Closing -/

/-- Flushing tables leaves each of them as it is. -/
theorem syncTables (h : Houses base route root service shelves) {names : List String}
    (hnames : ∀ name ∈ names, (shelves name).isSome = true) :
    ∃ after, Engine.syncTables service.disk service.engine names = (.ok (), after) ∧
      Houses base route root { service with engine := after } shelves := by
  induction names generalizing service with
  | nil => exact ⟨service.engine, rfl, h⟩
  | cons name rest ih =>
    obtain ⟨table, shelf, htable, hshelf, hdescribes, hcalled⟩ :=
      h.exists_table (hnames name (by simp))
    obtain ⟨after, hsync, hafter⟩ := hdescribes.sync
    -- The flushed table is on the same shelf, so that the shelves are the same.
    have hset := h.update (Spares.setTable service after fun _ _ ↦ rfl)
      (h.place ▸ stands_setTable (h.place ▸ hafter) hcalled)
    rw [← hshelf, Function.update_eq_self] at hset
    obtain ⟨last, hrest, hlast⟩ := ih hset fun other hother ↦ hnames other (by simp [hother])
    refine ⟨last, ?_, hlast⟩
    rw [Engine.syncTables, table_of_some htable]
    dsimp only
    rw [hsync]
    exact hrest

theorem sync (h : Houses base route root service shelves) :
    ∃ after, service.engine.sync service.disk = (.ok (), after) ∧
      Houses base route root { service with engine := after } shelves :=
  h.syncTables fun _ hname ↦ h.mem_names.mp hname

/-! ## Opening -/

/-- **A search of the data directory finds the tables there are, and nothing else.** -/
theorem mem_tableNames (h : Houses base route root service shelves) :
    name ∈ tableNames service.disk root ↔ (shelves name).isSome = true := by
  have hstands := h.stands name
  rw [mem_tableNames_iff]
  constructor
  · rintro ⟨hdirectory, _⟩
    generalize service.engine.tables[name]? = table?, shelves name = shelf? at hstands
    cases hstands with
    | nothing hempty =>
      rw [hempty _ List.prefix_rfl] at hdirectory
      cases hdirectory
    | table _ _ => rfl
  · intro hsome
    obtain ⟨_, _, _, _, hdescribes, _⟩ := h.exists_table hsome
    exact ⟨hdescribes.holds.isDirectory, hdescribes.has_schemaFile⟩

/-- Tables are opened as their shelves describe them. -/
theorem openTables (h : Houses base route root service shelves) {engine : Engine}
    (hplace : engine.root = root) {names : List String}
    (hnames : ∀ name ∈ names, (shelves name).isSome = true)
    (hopened : ∀ name, name ∉ names →
      Stands service.disk root name engine.tables[name]? (shelves name)) :
    ∃ after, Engine.openTables service.disk engine names = (.ok after, service.disk) ∧
      after.config = engine.config ∧ after.root = root ∧
      ∀ name, Stands service.disk root name after.tables[name]? (shelves name) := by
  induction names generalizing engine with
  | nil => exact ⟨engine, rfl, rfl, hplace, fun name ↦ hopened name (by simp)⟩
  | cons name rest ih =>
    obtain ⟨_, shelf, _, hshelf, hdescribes, hcalled⟩ := h.exists_table (hnames name (by simp))
    obtain ⟨table, hopen, htable⟩ := hdescribes.openAt engine.config.syncPolicy
    rw [hcalled, ← hplace] at hopen
    -- The table just opened is in its place, whether or not its name comes again.
    have hothers : ∀ other, other ∉ rest →
        Stands service.disk root other (engine.setTable name table).tables[other]?
          (shelves other) := by
      intro other hother
      rw [tables_setTable]
      by_cases hname : name = other
      · subst hname
        rw [if_pos rfl, hshelf]
        exact .table htable hcalled
      · rw [if_neg hname]
        exact hopened other (by simp [hother, Ne.symm hname])
    have hstill : (engine.setTable name table).root = root := hplace
    obtain ⟨after, hrest, hconfig, hafter⟩ :=
      ih hstill (fun other hother ↦ hnames other (by simp [hother])) hothers
    exact ⟨after, (openTables_cons_of_ok hopen rest).trans hrest, hconfig, hafter⟩

include hbase in
/-- **An engine opens over its data directory at any time**, and has the tables it had. -/
theorem openAt (h : Houses base route root service shelves) {start : Disk} {config : Config}
    (hroute : Route.ofText service.current config.dataDirectory = route)
    (hprepare : prepareRoot start route config = (.ok (), service.disk)) :
    ∃ after, Engine.openAt start service.current config = (.ok after, service.disk) ∧
      after.config = config ∧
      Houses base route root { service with engine := after } shelves := by
  obtain ⟨hlocate, hdirectory⟩ := h.located hbase
  have hroot := locateRoot_of_locate hlocate hdirectory
  have hplaced : (⟨config, root, ∅⟩ : Engine).root = root := rfl
  have habsent : ∀ name, name ∉ tableNames service.disk root →
      Stands service.disk root name (⟨config, root, ∅⟩ : Engine).tables[name]? (shelves name) := by
    intro name hname
    have hnone : shelves name = none :=
      Option.not_isSome_iff_eq_none.mp fun hsome ↦ hname (h.mem_tableNames.mpr hsome)
    have hstands := h.stands name
    rw [hnone] at hstands ⊢
    rw [Std.ExtTreeMap.getElem?_empty]
    generalize service.engine.tables[name]? = table? at hstands
    cases hstands with
    | nothing hempty => exact .nothing hempty
  obtain ⟨after, hopen, hconfig, hplace, hstands⟩ :=
    h.openTables hplaced (fun _ hname ↦ h.mem_tableNames.mp hname) habsent
  refine ⟨after, ?_, hconfig, hplace, ?_, h.outside, hstands⟩
  · rw [Engine.openAt, hroute, hprepare]
    dsimp only
    rw [hroot]
    exact hopen
  · rw [hconfig, hroute]

include hbase in
/-- Closing an engine and opening it again changes nothing. -/
theorem reopen (h : Houses base route root service shelves) (policy : SyncPolicy)
    (createIfMissing : Bool) :
    ∃ after, service.step (.reopen policy createIfMissing) =
        (.ok .done, some { service with engine := after }) ∧
      Houses base route root { service with engine := after } shelves := by
  obtain ⟨synced, hsync, hsynced⟩ := h.sync
  obtain ⟨hlocate, hdirectory⟩ := h.located hbase
  have hthere : service.disk.hasAt route = true := by
    rw [Disk.hasAt, hlocate]
    dsimp only
    rw [Disk.has, Disk.get?_of_locate hlocate hdirectory]
    rfl
  have hroute : Route.ofText service.current
      { synced.config with createIfMissing, syncPolicy := policy }.dataDirectory = route :=
    hsynced.route
  have hprepare : prepareRoot service.disk route
      { synced.config with createIfMissing, syncPolicy := policy } = (.ok (), service.disk) := by
    rw [prepareRoot, if_pos hthere]
  obtain ⟨after, hopen, _, hafter⟩ := hsynced.openAt hbase hroute hprepare
  refine ⟨after, ?_, hafter⟩
  dsimp only [Service.step]
  rw [hsync]
  dsimp only
  rw [hopen]

/-! ## Runs -/

include hbase in
/-- **A service answers a call as its shelves do**, and goes on with the shelves that are left. A
call that names a table changes nothing beside the directory of that table. -/
theorem step (h : Houses base route root service shelves) (call : Call) :
    ∃ after, service.step call = ((shelves.step root call).1, some after) ∧
      Houses base route root after (shelves.step root call).2 ∧
      ∀ name, call.table? = some name → Spares name service after := by
  cases htable : call.table? with
  | some name =>
    obtain ⟨hlocate, hdirectory⟩ := h.located hbase
    have hstands := h.stands name
    obtain rfl := h.place
    obtain ⟨after, hstep, hspares, hafter⟩ :=
      step_of_stands hlocate hdirectory hstands htable
    rw [Shelves.step_of_table? htable]
    refine ⟨after, hstep, h.update hspares hafter, ?_⟩
    rintro other ⟨⟩
    exact hspares
  | none =>
    rw [Shelves.step_of_none htable]
    cases call with
    | sync =>
      obtain ⟨after, hsync, hafter⟩ := h.sync
      refine ⟨{ service with engine := after }, ?_, hafter, nofun⟩
      dsimp only [Service.step]
      rw [hsync]
      rfl
    | reopen policy createIfMissing =>
      obtain ⟨after, hstep, hafter⟩ := h.reopen hbase policy createIfMissing
      exact ⟨_, hstep, hafter, nofun⟩
    | _ => cases htable

include hbase in
theorem run (h : Houses base route root service shelves) (calls : List Call) :
    ∃ last, service.run calls = ((shelves.run root calls).1, some last) ∧
      Houses base route root last (shelves.run root calls).2 := by
  induction calls generalizing service shelves with
  | nil => exact ⟨service, rfl, h⟩
  | cons call rest ih =>
    obtain ⟨after, hstep, hafter, _⟩ := h.step hbase call
    obtain ⟨last, hrest, hlast⟩ := ih hafter
    refine ⟨last, ?_, hlast⟩
    rw [Service.run_cons hstep, hrest]
    rfl

end Houses

end TableStore.Engine

import TableStore.Proofs.Engine.Stands
import TableStore.Proofs.Table.Within

/-!
# Opening all tables

The tables of a data directory are opened one after the other, each in a directory of its own. None
of them gets in the way of another. So all of them open if each of them does alone, what an engine
has for a name is what is in its directory, and where there is no table nothing changes.
-/

namespace TableStore.Engine

open Disk

variable {disk left : Disk} {root : Place} {name : String} {names : List String}
  {engine after : Engine}

/-! ## Names -/

/-- There is a table where there is a directory with a descriptor. -/
theorem mem_tableNames_iff :
    name ∈ tableNames disk root ↔
      disk.node? (root.enter name).path = some .directory ∧
        disk.has (Table.schemaFile (root.enter name)) = true := by
  rw [tableNames, List.mem_filterMap]
  constructor
  · rintro ⟨⟨found, node⟩, hentry, hname⟩
    have hthere := mem_entries_iff.mp hentry
    dsimp only at hname
    split at hname
    · next hdescribed =>
      cases hname
      exact ⟨hdescribed.1 ▸ hthere, hdescribed.2⟩
    · cases hname
  · rintro ⟨hdirectory, hdescribed⟩
    exact ⟨(name, .directory), mem_entries_iff.mpr hdirectory, if_pos ⟨rfl, hdescribed⟩⟩

/-- No table is found twice. -/
theorem nodup_tableNames (disk : Disk) (root : Place) : (tableNames disk root).Nodup := by
  refine (pairwise_entries disk root.path).filterMap _ ?_
  intro entry other hne name hname second hsecond hsame
  dsimp only at hname hsecond
  split at hname
  · split at hsecond
    · cases hname
      cases hsecond
      exact hne hsame
    · cases hsecond
  · cases hname

/-- A table that is found stays as long as nothing changes in its directory. -/
theorem mem_tableNames_congr (h : AgreesWithin (root.enter name).path disk left) :
    name ∈ tableNames left root ↔ name ∈ tableNames disk root := by
  have hschema : left.has (Table.schemaFile (root.enter name)) =
      disk.has (Table.schemaFile (root.enter name)) := by
    rw [Disk.has, Disk.has, Table.schemaFile, h.get? (Place.within_enter _ _)]
  rw [mem_tableNames_iff, mem_tableNames_iff, h _ List.prefix_rfl, hschema]

theorem mem_names_iff : name ∈ engine.names ↔ (engine.tables[name]?).isSome = true := by
  rw [Engine.names, Std.ExtTreeMap.mem_keys, Std.ExtTreeMap.mem_iff_isSome_getElem?]

/-! ## One after the other -/

/-- What opening tables by name comes to. -/
structure Opens (disk : Disk) (engine : Engine) (names : List String) (after : Engine)
    (left : Disk) : Prop where
  config : after.config = engine.config
  root : after.root = engine.root
  /-- Each table opens by itself, and what it leaves in its directory stays. -/
  table : ∀ name ∈ names, ∃ table opened,
    Table.openAt disk (engine.root.enter name) name engine.config.syncPolicy =
        (.ok table, opened) ∧
      after.tables[name]? = some table ∧ AgreesWithin (engine.root.enter name).path opened left
  others : ∀ name, name ∉ names → after.tables[name]? = engine.tables[name]?
  /-- Nothing changes beside the directories of the tables. -/
  beside : ∀ path, (∀ name ∈ names, ¬ (engine.root.enter name).path <+: path) →
    left.node? path = disk.node? path

/-- A change in the directory of a name is none in the directory of another one. -/
theorem agreesWithin_of_ne {other : String} (hne : other ≠ name)
    (h : ChangesWithin (root.enter name).path disk left) :
    AgreesWithin (root.enter other).path disk left :=
  fun path hwithin ↦ h.beside path (not_within_of_ne hne hwithin)

/-- What is in the directory of a name for which there is no table stays. -/
theorem Opens.agreesWithin (h : Opens disk engine names after left) (hname : name ∉ names) :
    AgreesWithin (engine.root.enter name).path disk left := by
  intro path hwithin
  refine h.beside path fun other hother ↦ not_within_of_ne ?_ hwithin
  rintro rfl
  exact hname hother

/-- **Tables open as each of them does alone.** -/
theorem opens_of_openTables (hnames : names.Nodup)
    (h : openTables disk engine names = (.ok after, left)) :
    Opens disk engine names after left := by
  induction names generalizing disk engine with
  | nil =>
    cases h
    exact ⟨rfl, rfl, nofun, fun _ _ ↦ rfl, fun _ _ ↦ rfl⟩
  | cons name rest ih =>
    obtain ⟨hfresh, hrest⟩ := List.nodup_cons.mp hnames
    cases hopen : Table.openAt disk (engine.root.enter name) name engine.config.syncPolicy with
    | mk outcome opened =>
      cases outcome with
      | error e =>
        rw [openTables_cons, hopen] at h
        cases h
      | ok table =>
        rw [openTables_cons_of_ok hopen] at h
        have hothers := ih hrest h
        have hchanges := Table.changesWithin_openAt disk (engine.root.enter name) name
          engine.config.syncPolicy
        rw [hopen] at hchanges
        have hne : ∀ other ∈ rest, other ≠ name := by
          rintro other hother rfl
          exact hfresh hother
        refine ⟨hothers.config, hothers.root, ?_, ?_, ?_⟩
        · intro other hother
          rcases List.mem_cons.mp hother with rfl | hother
          · refine ⟨table, opened, hopen, ?_, ?_⟩
            · rw [hothers.others other hfresh, tables_setTable, if_pos rfl]
            · intro path hwithin
              refine hothers.beside path fun another hanother ↦ ?_
              exact not_within_of_ne (hne another hanother).symm hwithin
          · -- The table was opened on a disk that is the same in its directory.
            obtain ⟨second, opened, hsecond, htable, hagrees⟩ := hothers.table other hother
            obtain ⟨alone, halone, hsame⟩ :=
              Table.openAt_congr (agreesWithin_of_ne (hne other hother) hchanges).symm hsecond
            exact ⟨second, alone, halone, htable, hsame.symm.trans hagrees⟩
        · intro other hother
          rw [List.mem_cons, not_or] at hother
          rw [hothers.others other hother.2, tables_setTable, if_neg (Ne.symm hother.1)]
        · intro path hbeside
          have hhere := hbeside name List.mem_cons_self
          rw [hothers.beside path fun other hother ↦ hbeside other (List.mem_cons_of_mem _ hother),
            hchanges.beside path hhere]

/-- **All tables open if each of them does alone.** -/
theorem exists_openTables (hnames : names.Nodup)
    (h : ∀ name ∈ names, ∃ table opened,
      Table.openAt disk (engine.root.enter name) name engine.config.syncPolicy =
        (.ok table, opened)) :
    ∃ after left, openTables disk engine names = (.ok after, left) := by
  induction names generalizing disk engine with
  | nil => exact ⟨engine, disk, rfl⟩
  | cons name rest ih =>
    obtain ⟨hfresh, hrest⟩ := List.nodup_cons.mp hnames
    obtain ⟨table, opened, hopen⟩ := h name List.mem_cons_self
    have hchanges := Table.changesWithin_openAt disk (engine.root.enter name) name
      engine.config.syncPolicy
    rw [hopen] at hchanges
    rw [openTables_cons_of_ok hopen]
    refine ih hrest fun other hother ↦ ?_
    have hne : other ≠ name := by
      rintro rfl
      exact hfresh hother
    obtain ⟨second, alone, halone⟩ := h other (List.mem_cons_of_mem _ hother)
    obtain ⟨late, hlate, _⟩ := Table.openAt_congr (agreesWithin_of_ne hne hchanges) halone
    exact ⟨second, late, hlate⟩

/-! ## Opening an engine -/

variable {route : Route} {current : Path} {config : Config} {other : Disk}

/-- A data directory that is there is a directory. -/
theorem of_locateRoot_eq_ok (h : locateRoot disk route = .ok root) :
    disk.locate route = .ok root ∧ disk.node? root.path = some .directory := by
  unfold locateRoot at h
  split at h
  · cases h
  · next hlocate =>
    split at h
    · next hdirectory =>
      cases h
      rw [Disk.isDirectory, beq_iff_eq] at hdirectory
      exact ⟨hlocate, (get?_eq_some_iff.mp hdirectory).2⟩
    · cases h

theorem locateRoot_of_locate (hlocate : disk.locate route = .ok root)
    (hdirectory : disk.node? root.path = some .directory) :
    locateRoot disk route = .ok root := by
  rw [locateRoot, hlocate]
  dsimp only
  rw [Disk.isDirectory, get?_of_locate hlocate hdirectory, if_pos (beq_self_eq_true _)]

/-- A data directory is found as long as no directory is gone. -/
theorem locateRoot_of_directories
    (hkeeps : ∀ path, disk.node? path = some .directory → other.node? path = some .directory)
    (h : locateRoot disk route = .ok root) : locateRoot other route = .ok root := by
  obtain ⟨hlocate, hdirectory⟩ := of_locateRoot_eq_ok h
  exact locateRoot_of_locate (locate_of_directories hkeeps hlocate) (hkeeps _ hdirectory)

/-- Over a data directory that has been prepared an engine opens the tables in it. -/
theorem openAt_of_prepareRoot
    (hprepare : prepareRoot disk (Route.ofText current config.dataDirectory) config =
      (.ok (), other))
    (hroot : locateRoot other (Route.ofText current config.dataDirectory) = .ok root) :
    openAt disk current config = openTables other ⟨config, root, ∅⟩ (tableNames other root) := by
  rw [Engine.openAt, hprepare]
  dsimp only
  rw [hroot]

/-- Over a data directory that is there an engine opens the tables in it. -/
theorem openAt_of_locateRoot
    (h : locateRoot disk (Route.ofText current config.dataDirectory) = .ok root) :
    openAt disk current config = openTables disk ⟨config, root, ∅⟩ (tableNames disk root) := by
  obtain ⟨hlocate, hdirectory⟩ := of_locateRoot_eq_ok h
  have hthere : disk.hasAt (Route.ofText current config.dataDirectory) = true := by
    rw [hasAt, hlocate]
    dsimp only
    rw [Disk.has, get?_of_locate hlocate hdirectory]
    rfl
  exact openAt_of_prepareRoot (by rw [prepareRoot, if_pos hthere]) h

/-- There are no tables where there are no descriptors. -/
theorem tableNames_eq_nil
    (h : ∀ name, disk.node? (Table.schemaFile (root.enter name)).path = none) :
    tableNames disk root = [] := by
  rw [List.eq_nil_iff_forall_not_mem]
  intro name hname
  have hdescribed := (mem_tableNames_iff.mp hname).2
  rw [Disk.has, get?_of_node?_eq_none (h name)] at hdescribed
  cases hdescribed

/-- Over a data directory without tables an engine without tables opens, and nothing changes. -/
theorem openAt_of_tableNames_eq_nil
    (h : locateRoot disk (Route.ofText current config.dataDirectory) = .ok root)
    (hnames : tableNames disk root = []) :
    openAt disk current config = (.ok ⟨config, root, ∅⟩, disk) := by
  rw [openAt_of_locateRoot h, hnames, openTables_nil]

/-- An engine without tables whose data directory is called data. -/
def vacantEngine : Engine :=
  ⟨⟨"data", true, .everyRecord⟩, ⟨["data"], Route.ofText [] "data"⟩, ∅⟩

end TableStore.Engine

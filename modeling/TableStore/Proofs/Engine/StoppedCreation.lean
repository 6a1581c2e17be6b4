import TableStore.Proofs.Engine.Opening
import TableStore.Proofs.Table.StoppedCreation

/-!
# Engines after a creation that has stopped

When a creation stops half way, the engine that is opened next has all the tables there were. It has
the new table, without rows, if the descriptor had come to its place. Otherwise it has none of that
name, and one can be created, unless the text of a file that would have to be discarded is too long:
that is found out only when a directory is taken over.
-/

namespace TableStore.Engine

open Disk

variable {disk opened found left : Disk} {current : Path} {config : Config} {root : Place}
  {engine resumed : Engine} {schema : Schema} {name : String}

/-- What has become of a table whose creation has stopped. -/
inductive Settles (schema : Schema) (engine : Engine) (disk : Disk) : Prop where
  /-- There is none, and one of that name can be created with any schema. -/
  | absent (unlisted : schema.name ∉ engine.names)
      (creates : ∀ other : Schema, other.validate = .ok () → other.name = schema.name →
        (Table.compactFile (engine.root.enter schema.name)).length ≤ textLimit →
        ∃ table left, engine.createTable disk other =
            (.ok (), engine.setTable schema.name table, left) ∧
          table.Holds left other (engine.root.enter schema.name) [])
  /-- There is one without rows. -/
  | present {table : Table} (listed : schema.name ∈ engine.names)
      (found : engine.tables[schema.name]? = some table)
      (empty : table.Holds disk schema (engine.root.enter schema.name) [])

/-- What opening an engine comes to after a creation has stopped, beside what it would have come to
before. -/
structure Resumes (engine : Engine) (opened : Disk) (schema : Schema) (resumed : Engine)
    (left : Disk) : Prop where
  config : resumed.config = engine.config
  root : resumed.root = engine.root
  /-- All other tables are the same. -/
  others : ∀ name, name ≠ schema.name → resumed.tables[name]? = engine.tables[name]?
  /-- So is everything beside the directory of the new one. -/
  beside : ∀ path, ¬ (engine.root.enter schema.name).path <+: path →
    left.node? path = opened.node? path
  settles : Settles schema resumed left

/-! ## Names -/

/-- A directory that is free is not one of a table. -/
theorem not_mem_tableNames_of_isSpare (h : Table.IsSpare disk (root.enter name)) :
    name ∉ tableNames disk root := by
  rw [mem_tableNames_iff]
  rintro ⟨hdirectory, hdescribed⟩
  cases h with
  | vacant hempty =>
    rw [hempty _ List.prefix_rfl] at hdirectory
    cases hdirectory
  | unfinished h =>
    rw [Disk.has, get?_of_node?_eq_none h.undescribed] at hdescribed
    cases hdescribed

/-! ## Opening -/

/-- The way to the data directory is none through a table. -/
theorem Opens.isReached {names : List String} (h : Opens disk engine names resumed left)
    (hreached : disk.IsReached engine.root.path) : left.IsReached engine.root.path := by
  intro before hbefore
  rw [h.beside before fun name _ hwithin ↦ ?_, hreached before hbefore]
  have hlength := (hwithin.trans hbefore).length_le
  rw [Place.path_enter, List.length_append, List.length_singleton] at hlength
  omega

/-! ## Creating -/

/-- If there is no table of its name, a table comes to what its creation comes to. -/
theorem createTable_of_getElem?_eq_none (habsent : engine.tables[schema.name]? = none)
    (hvalid : schema.validate = .ok ()) (disk : Disk) :
    engine.createTable disk schema =
      match Table.create disk (engine.root.enter schema.name) schema engine.config.syncPolicy with
      | (.error e, left) => (.error e, engine, left)
      | (.ok table, left) => (.ok (), engine.setTable schema.name table, left) := by
  have hnone : ¬ engine.tables.contains schema.name = true := by
    rw [Std.ExtTreeMap.contains_eq_isSome_getElem?, habsent]
    exact Bool.false_ne_true
  rw [createTable, hvalid]
  exact if_neg hnone

/-- A table is created in a directory that is free, if there is none of its name. -/
theorem exists_createTable (hreached : disk.IsReached engine.root.path)
    (hspare : Table.IsSpare disk (engine.root.enter schema.name))
    (habsent : engine.tables[schema.name]? = none) (hvalid : schema.validate = .ok ())
    (hname : schema.name.utf8ByteSize ≤ nameLimit)
    (hlength : (Table.compactFile (engine.root.enter schema.name)).length ≤ textLimit) :
    ∃ table left, engine.createTable disk schema =
        (.ok (), engine.setTable schema.name table, left) ∧
      table.Holds left schema (engine.root.enter schema.name) [] := by
  obtain ⟨table, left, hcreate, hholds, _⟩ :=
    hspare.exists_create hreached hvalid hname hlength engine.config.syncPolicy
  exact ⟨table, left, by rw [createTable_of_getElem?_eq_none habsent hvalid, hcreate], hholds⟩

/-- None is created in an unfinished directory where the text of the copy is too long. -/
theorem createTable_of_long (hreached : disk.IsReached (engine.root.enter schema.name).path)
    (h : Table.IsUnfinished disk (engine.root.enter schema.name))
    (habsent : engine.tables[schema.name]? = none) (hvalid : schema.validate = .ok ())
    (hlong : textLimit < (Table.compactFile (engine.root.enter schema.name)).length) :
    ∃ left, engine.createTable disk schema = (.error (.file .nameTooLong), engine, left) := by
  obtain ⟨left, hcreate⟩ := h.create_of_long hreached hvalid hlong engine.config.syncPolicy
  exact ⟨left, by rw [createTable_of_getElem?_eq_none habsent hvalid, hcreate]⟩

/-- Where there is room for the text of the directory, but none for that of the copy, a creation can
make the directory and stop, and then it cannot be repeated. -/
theorem stops_of_long (htree : disk.IsTree)
    (hroot : disk.node? engine.root.path = some .directory)
    (hvacant : ∀ path, (engine.root.enter schema.name).path <+: path → disk.node? path = none)
    (habsent : engine.tables[schema.name]? = none) (hvalid : schema.validate = .ok ())
    (hname : schema.name.utf8ByteSize ≤ nameLimit)
    (hroom : (engine.root.enter schema.name).length ≤ textLimit)
    (hlong : textLimit < (Table.compactFile (engine.root.enter schema.name)).length)
    (hmade : disk.set (engine.root.enter schema.name).path .directory = found) :
    Table.CreationStops disk (engine.root.enter schema.name) schema found ∧
      ∃ left, engine.createTable found schema = (.error (.file .nameTooLong), engine, left) := by
  have hprepare := Table.prepareDirectory_of_vacant hroot hvacant
  rw [if_neg (not_or.mpr ⟨Nat.not_lt.mpr hroom, Nat.not_lt.mpr hname⟩), hmade] at hprepare
  have hunfinished := Table.isUnfinished_of_prepareDirectory hroot (.vacant hvacant) hprepare
  have hparent : disk.node? (engine.root.enter schema.name).path.dropLast = some .directory := by
    rw [Place.dropLast_path_enter, hroot]
  have hreached : found.IsReached (engine.root.enter schema.name).path := by
    have hfound := htree.set (Place.path_enter_ne_nil _ _) hparent (.inl rfl)
    rw [hmade] at hfound
    exact hfound.isReached hunfinished.isDirectory
  exact ⟨.prepared hprepare, createTable_of_long hreached hunfinished habsent hvalid hlong⟩

/-! ## Two openings -/

section Two

variable {before : Engine}
  (hopens : Opens disk before (tableNames disk before.root) engine opened)
  (hresumed : Opens found before (tableNames found before.root) resumed left)
  (hchanges : ChangesWithin (before.root.enter name).path disk found)

include hopens hresumed hchanges

/-- A table in another directory is the same, and leaves the same there. -/
theorem Opens.exists_both {other : String} (hne : other ≠ name)
    (hother : other ∈ tableNames disk before.root) :
    resumed.tables[other]? = engine.tables[other]? ∧
      AgreesWithin (before.root.enter other).path opened left := by
  obtain ⟨table, alone, halone, htable, hopened⟩ := hopens.table other hother
  obtain ⟨second, late, hlate, hsecond, hleft⟩ :=
    hresumed.table other ((mem_tableNames_congr (agreesWithin_of_ne hne hchanges)).mpr hother)
  obtain ⟨same, hsame, hagrees⟩ :=
    Table.openAt_congr (agreesWithin_of_ne hne hchanges) halone
  rw [hlate] at hsame
  cases hsame
  exact ⟨hsecond.trans htable.symm, (hopened.symm.trans hagrees).trans hleft⟩

/-- **Two engines have the same tables** when only the directory of one name is different. -/
theorem Opens.tables_eq {other : String} (hne : other ≠ name) :
    resumed.tables[other]? = engine.tables[other]? := by
  by_cases hother : other ∈ tableNames disk before.root
  · exact (hopens.exists_both hresumed hchanges hne hother).1
  · have hnot := mt (mem_tableNames_congr (agreesWithin_of_ne hne hchanges)).mp hother
    rw [hresumed.others other hnot, hopens.others other hother]

/-- Beside this directory they leave the same. -/
theorem Opens.node?_eq {path : Path} (hbeside : ¬ (before.root.enter name).path <+: path) :
    left.node? path = opened.node? path := by
  by_cases hwithin : ∃ other ∈ tableNames disk before.root,
      (before.root.enter other).path <+: path
  · obtain ⟨other, hother, hpath⟩ := hwithin
    have hne : other ≠ name := by
      rintro rfl
      exact hbeside hpath
    exact (hopens.exists_both hresumed hchanges hne hother).2 path hpath
  · have hnone : ∀ other ∈ tableNames disk before.root,
        ¬ (before.root.enter other).path <+: path :=
      fun other hother hpath ↦ hwithin ⟨other, hother, hpath⟩
    have hlate : ∀ other ∈ tableNames found before.root,
        ¬ (before.root.enter other).path <+: path := by
      intro other hother
      by_cases hne : other = name
      · rw [hne]
        exact hbeside
      · exact hnone other ((mem_tableNames_congr (agreesWithin_of_ne hne hchanges)).mp hother)
    rw [hresumed.beside path hlate, hopens.beside path hnone, hchanges.beside path hbeside]

end Two

/-! ## After a creation -/

/-- Where the directory is free there is no table, and one can be created. -/
theorem Opens.settles_of_isSpare {before : Engine}
    (hresumed : Opens found before (tableNames found before.root) resumed left)
    (hreached : found.IsReached before.root.path)
    (hspare : Table.IsSpare found (before.root.enter schema.name))
    (hnone : before.tables[schema.name]? = none)
    (hname : schema.name.utf8ByteSize ≤ nameLimit) : Settles schema resumed left := by
  have hnot := not_mem_tableNames_of_isSpare hspare
  have habsent := (hresumed.others schema.name hnot).trans hnone
  have hleft := hspare.congr (hresumed.agreesWithin hnot)
  have hway := hresumed.isReached hreached
  rw [← hresumed.root] at hleft hway
  refine .absent ?_ ?_
  · rw [mem_names_iff, habsent]
    exact Bool.false_ne_true
  · intro other hvalid hcalled hlength
    rw [← hcalled] at hleft habsent hname hlength ⊢
    exact exists_createTable hway hleft habsent hvalid hname hlength

/-- Where there is a descriptor there is a table without rows. -/
theorem Opens.settles_of_isDescribed {before : Engine}
    (hresumed : Opens found before (tableNames found before.root) resumed left)
    (hdescribed : Table.IsDescribed found (before.root.enter schema.name) schema)
    (hvalid : schema.validate = .ok ()) : Settles schema resumed left := by
  obtain ⟨table, opened, hopen, hholds⟩ :=
    hdescribed.exists_openAt hvalid before.config.syncPolicy
  have hlisted : schema.name ∈ tableNames found before.root :=
    mem_tableNames_iff.mpr
      ⟨hdescribed.isDirectory, Table.has_schemaFile_of_load hdescribed.load⟩
  obtain ⟨second, late, hlate, hsecond, hagrees⟩ := hresumed.table schema.name hlisted
  rw [hopen] at hlate
  cases hlate
  have hleft := hholds.congr hagrees
  rw [← hresumed.root] at hleft
  refine .present ?_ hsecond hleft
  rw [mem_names_iff, hsecond]
  rfl

/-- After a creation has stopped, every table opens that is found. -/
theorem exists_openAt_of_creationStops {before : Engine}
    (hopens : Opens disk before (tableNames disk before.root) engine opened)
    (hchanges : ChangesWithin (before.root.enter schema.name).path disk found)
    (hvalid : schema.validate = .ok ())
    (hends : Table.IsSpare found (before.root.enter schema.name) ∨
      Table.IsDescribed found (before.root.enter schema.name) schema) :
    ∀ other ∈ tableNames found before.root, ∃ table alone,
      Table.openAt found (before.root.enter other) other before.config.syncPolicy =
        (.ok table, alone) := by
  intro other hother
  by_cases hne : other = schema.name
  · subst hne
    rcases hends with hspare | hdescribed
    · exact absurd hother (not_mem_tableNames_of_isSpare hspare)
    · obtain ⟨table, alone, halone, _⟩ :=
        hdescribed.exists_openAt hvalid before.config.syncPolicy
      exact ⟨table, alone, halone⟩
  · obtain ⟨table, alone, halone, _, _⟩ :=
      hopens.table other ((mem_tableNames_congr (agreesWithin_of_ne hne hchanges)).mp hother)
    obtain ⟨late, hlate, _⟩ := Table.openAt_congr (agreesWithin_of_ne hne hchanges) halone
    exact ⟨table, late, hlate⟩

/-- What opening all tables comes to after a creation has stopped. -/
theorem exists_openTables_of_creationStops {before : Engine} (htree : disk.IsTree)
    (hdirectory : disk.node? before.root.path = some .directory)
    (hopens : Opens disk before (tableNames disk before.root) engine opened)
    (hnone : before.tables[schema.name]? = none)
    (hvalid : schema.validate = .ok ()) (hname : schema.name.utf8ByteSize ≤ nameLimit)
    (hspare : Table.IsSpare disk (before.root.enter schema.name))
    (hstops : Table.CreationStops disk (before.root.enter schema.name) schema found) :
    ∃ resumed left,
      openTables found before (tableNames found before.root) = (.ok resumed, left) ∧
        Resumes engine opened schema resumed left := by
  have hchanges := hstops.changesWithin
  have hends := hstops.isSpare_or_isDescribed hdirectory htree hspare
  obtain ⟨resumed, left, hresume⟩ := exists_openTables (nodup_tableNames found before.root)
    (exists_openAt_of_creationStops hopens hchanges hvalid hends)
  have hresumed := opens_of_openTables (nodup_tableNames found before.root) hresume
  refine ⟨resumed, left, hresume, hresumed.config.trans hopens.config.symm,
    hresumed.root.trans hopens.root.symm, fun other hne ↦ hopens.tables_eq hresumed hchanges hne,
    ?_, ?_⟩
  · intro path hbeside
    rw [hopens.root] at hbeside
    exact hopens.node?_eq hresumed hchanges hbeside
  · rcases hends with hfree | hdescribed
    · have hreached : found.IsReached before.root.path :=
        fun path hpath ↦ hchanges.directories path (htree.isReached hdirectory path hpath)
      exact hresumed.settles_of_isSpare hreached hfree hnone hname
    · exact hresumed.settles_of_isDescribed hdescribed hvalid

/-- **A creation can stop at any point.** Let all tables of a data directory open, and let a
creation stop whose table has a directory that is free, with whatever bytes in files that are left
there. The engine that is opened next has all other tables as they were, and the new one without
rows or none of its name. -/
theorem resumes_of_creationStops (htree : disk.IsTree)
    (hroot : locateRoot disk (Route.ofText current config.dataDirectory) = .ok root)
    (hopen : openAt disk current config = (.ok engine, opened))
    (hvalid : schema.validate = .ok ()) (hname : schema.name.utf8ByteSize ≤ nameLimit)
    (hspare : Table.IsSpare disk (root.enter schema.name))
    (hstops : Table.CreationStops disk (root.enter schema.name) schema found) :
    ∃ resumed left, openAt found current config = (.ok resumed, left) ∧
      Resumes engine opened schema resumed left := by
  have hdirectory := (of_locateRoot_eq_ok hroot).2
  rw [openAt_of_locateRoot hroot] at hopen
  rw [openAt_of_locateRoot (locateRoot_of_directories hstops.changesWithin.directories hroot)]
  have hnone : (∅ : Std.ExtTreeMap String Table Utf8.order)[schema.name]? = none :=
    Std.ExtTreeMap.getElem?_empty
  generalize hbefore : (⟨config, root, ∅⟩ : Engine) = before at hopen ⊢
  obtain rfl : before.root = root := hbefore ▸ rfl
  have habsent : before.tables[schema.name]? = none := by rw [← hbefore]; exact hnone
  exact exists_openTables_of_creationStops htree hdirectory
    (opens_of_openTables (nodup_tableNames disk _) hopen) habsent hvalid hname hspare hstops

/-- The steps to a data directory with a directory for orders in it that has no descriptor, and has
bytes in its log. -/
def leftoverSteps : List Disk.Step :=
  [.createDirectory ⟨["data"], ⟨[], 0, ["data"]⟩⟩,
    .createDirectory ⟨["data", "orders"], ⟨[], 0, ["data", "orders"]⟩⟩,
    .createFile ⟨["data", "orders", "data.log"], ⟨[], 0, ["data", "orders", "data.log"]⟩⟩,
    .append ⟨["data", "orders", "data.log"], ⟨[], 0, ["data", "orders", "data.log"]⟩⟩
      [1, 0, 0, 0, 7]]

def leftoverDisk : Disk :=
  (Disk.empty.perform leftoverSteps).2

/-- The disk when orders have begun to be created over these bytes. -/
def preparedDisk : Disk :=
  (Table.prepareDirectory leftoverDisk (vacantEngine.root.enter "orders")
    RecordFormat.ordersSchema).2

def draftPlace : Place :=
  ⟨["data", "orders", "schema.tmp"], ⟨["data", "orders"], "data/orders/".length, ["schema.tmp"]⟩⟩

/-- The disk when the draft has the first bytes of the descriptor. -/
def draftedDisk : Disk :=
  (preparedDisk.perform (Descriptor.draftSteps draftPlace [82, 76, 83])).2

/-- A creation over old bytes stops at the third byte of the descriptor. -/
theorem resumes_of_creationStops_leftover :
    leftoverDisk.IsTree ∧
      openAt leftoverDisk [] vacantEngine.config = (.ok vacantEngine, leftoverDisk) ∧
      RecordFormat.ordersSchema.validate = .ok () ∧
      Table.IsSpare leftoverDisk (vacantEngine.root.enter "orders") ∧
      Table.CreationStops leftoverDisk (vacantEngine.root.enter "orders")
        RecordFormat.ordersSchema draftedDisk ∧
      ∃ resumed left, openAt draftedDisk [] vacantEngine.config = (.ok resumed, left) ∧
        Resumes vacantEngine leftoverDisk RecordFormat.ordersSchema resumed left := by
  have htree : leftoverDisk.IsTree := Disk.isTree_empty.perform leftoverSteps
  have hroot : locateRoot leftoverDisk (Route.ofText [] vacantEngine.config.dataDirectory) =
      .ok vacantEngine.root := by
    decide +kernel
  have hnames : tableNames leftoverDisk vacantEngine.root = [] := by decide +kernel
  have hopen : openAt leftoverDisk [] vacantEngine.config = (.ok vacantEngine, leftoverDisk) :=
    openAt_of_tableNames_eq_nil hroot hnames
  have hvalid : RecordFormat.ordersSchema.validate = .ok () := by decide +kernel
  have hspare : Table.IsSpare leftoverDisk (vacantEngine.root.enter "orders") := by
    refine .unfinished ⟨?_, ?_, .inr ⟨[1, 0, 0, 0, 7], ?_⟩, .inl ?_, .inl ?_⟩ <;> decide +kernel
  have hprepare : Table.prepareDirectory leftoverDisk (vacantEngine.root.enter "orders")
      RecordFormat.ordersSchema = (.ok (), preparedDisk) :=
    Prod.ext (by decide +kernel) rfl
  have hdraft : preparedDisk.locate
      (((vacantEngine.root.enter "orders").onward Table.schemaName).withExtension "tmp") =
        .ok draftPlace := by
    decide +kernel
  have hencode : Descriptor.encode RecordFormat.ordersSchema =
      .ok (Descriptor.withChecksum (Descriptor.content RecordFormat.ordersSchema)) := by
    rw [Descriptor.encode, hvalid]
  have hdrafted : preparedDisk.perform (Descriptor.draftSteps draftPlace [82, 76, 83]) =
      (.ok (), draftedDisk) :=
    Prod.ext (by decide +kernel) rfl
  have hstops : Table.CreationStops leftoverDisk (vacantEngine.root.enter "orders")
      RecordFormat.ordersSchema draftedDisk :=
    .drafting hprepare hdraft hencode (by decide +kernel) hdrafted
  exact ⟨htree, hopen, hvalid, hspare, hstops,
    resumes_of_creationStops htree hroot hopen hvalid (by decide) hspare hstops⟩

/-! ## Slashes behind the data directory -/

/-- A configuration whose data directory is written with slashes behind its name. -/
def slashedConfig (count : Nat) : Config :=
  ⟨Route.slashed "db" count, true, .everyRecord⟩

/-- The engine without tables of this configuration. -/
def slashedEngine (count : Nat) : Engine :=
  ⟨slashedConfig count, ⟨["db"], ⟨[], 0, "db" :: List.replicate count ""⟩⟩, ∅⟩

/-- A disk with an empty data directory. -/
def slashedDisk : Disk :=
  Disk.empty.set ["db"] .directory

/-- The disk when orders have begun to be created in it. -/
def stoppedDisk : Disk :=
  slashedDisk.set ["db", "orders"] .directory

/-- A name is written behind the slashes. -/
theorem length_enter_slashedEngine {count : Nat} (hcount : 0 < count) (name : String) :
    ((slashedEngine count).root.enter name).length = 2 + count + name.utf8ByteSize := by
  have hlast : ("db" :: List.replicate count "").getLast? = some "" := by
    obtain ⟨before, rfl⟩ := Nat.exists_eq_succ_of_ne_zero (Nat.ne_of_gt hcount)
    rw [List.replicate_succ', ← List.cons_append, List.getLast?_concat]
  rw [Place.length, Place.enter, slashedEngine, Route.length_join_of_slash hlast,
    Route.length_slashed]
  rfl

/-- An engine without tables opens if the slashes do not make the text too long. -/
theorem openAt_slashed {count : Nat} (hcount : 2 + count ≤ textLimit)
    (hdirectory : disk.node? ["db"] = some .directory)
    (hnone : ∀ name, disk.node? ["db", name, Table.schemaName] = none) :
    openAt disk [] (slashedConfig count) = (.ok (slashedEngine count), disk) := by
  have hentry : Route.IsEntry "db" := ⟨by decide, by decide⟩
  have hlocate : disk.locate ⟨[], 0, "db" :: List.replicate count ""⟩ =
      .ok (slashedEngine count).root :=
    locate_slashed hentry (by decide) hdirectory hcount
  have hroot : locateRoot disk (Route.ofText [] (slashedConfig count).dataDirectory) =
      .ok (slashedEngine count).root := by
    rw [slashedConfig, Route.ofText_slashed (by decide) (by decide)]
    exact locateRoot_of_locate hlocate hdirectory
  exact openAt_of_tableNames_eq_nil hroot (tableNames_eq_nil hnone)

/-- **A creation that has stopped cannot always be repeated**: there can be room for the text of the
directory, but none for that of a copy in it. -/
theorem createTable_fails_behind_slashes :
    openAt slashedDisk [] (slashedConfig 4074) = (.ok (slashedEngine 4074), slashedDisk) ∧
      RecordFormat.ordersSchema.validate = .ok () ∧
      Table.IsSpare slashedDisk
        ((slashedEngine 4074).root.enter RecordFormat.ordersSchema.name) ∧
      Table.CreationStops slashedDisk
        ((slashedEngine 4074).root.enter RecordFormat.ordersSchema.name)
        RecordFormat.ordersSchema stoppedDisk ∧
      openAt stoppedDisk [] (slashedConfig 4074) = (.ok (slashedEngine 4074), stoppedDisk) ∧
      RecordFormat.ordersSchema.name ∉ (slashedEngine 4074).names ∧
      ∃ left, (slashedEngine 4074).createTable stoppedDisk RecordFormat.ordersSchema =
        (.error (.file .nameTooLong), slashedEngine 4074, left) := by
  have hvalid : RecordFormat.ordersSchema.validate = .ok () := by decide +kernel
  have hlength : ((slashedEngine 4074).root.enter RecordFormat.ordersSchema.name).length = 4082 :=
    length_enter_slashedEngine (by decide) RecordFormat.ordersSchema.name
  have hroom : ((slashedEngine 4074).root.enter RecordFormat.ordersSchema.name).length ≤
      textLimit := by
    rw [hlength]
    decide
  have hlong : textLimit < (Table.compactFile
      ((slashedEngine 4074).root.enter RecordFormat.ordersSchema.name)).length := by
    rw [Table.compactFile, Place.length_enter_enter (by decide), hlength]
    decide
  have htree : slashedDisk.IsTree := isTree_empty.set (by decide) (by decide) (by decide)
  have hdirectory : slashedDisk.node? ["db"] = some .directory := by decide +kernel
  have hnone : slashedDisk.node? ["db", "orders"] = none := by decide +kernel
  have hvacant : ∀ path,
      ((slashedEngine 4074).root.enter RecordFormat.ordersSchema.name).path <+: path →
        slashedDisk.node? path = none :=
    fun _ hwithin ↦ htree.node?_eq_none hnone hwithin
  have habsent : (slashedEngine 4074).tables[RecordFormat.ordersSchema.name]? = none :=
    Std.ExtTreeMap.getElem?_empty
  have hundescribed : ∀ name, slashedDisk.node? ["db", name, Table.schemaName] = none := by
    intro name
    rw [slashedDisk, node?_set (by decide), if_neg (by simp), node?_empty (by simp)]
  have hstill : ∀ name, stoppedDisk.node? ["db", name, Table.schemaName] = none := by
    intro name
    rw [stoppedDisk, node?_set (by decide), if_neg (by simp), hundescribed]
  have hstopped : stoppedDisk.node? ["db"] = some .directory := by decide +kernel
  have hunlisted : RecordFormat.ordersSchema.name ∉ (slashedEngine 4074).names := by
    rw [mem_names_iff, habsent]
    exact Bool.false_ne_true
  obtain ⟨hstops, hfails⟩ := stops_of_long htree hdirectory hvacant habsent hvalid (by decide)
    hroom hlong (rfl : _ = stoppedDisk)
  exact ⟨openAt_slashed (by decide) hdirectory hundescribed, hvalid, .vacant hvacant, hstops,
    openAt_slashed (by decide) hstopped hstill, hunlisted, hfails⟩

end TableStore.Engine

import TableStore.Proofs.Table.Creation

/-!
# Creations that stop half way

A creation makes a directory or takes one over, drafts the descriptor, puts it in its place, and
then makes an empty log. As long as the descriptor is not in its place the directory is not one of a
table, and it is free for another creation, which never reads what the first one has left there.
From then on it is one of a table without rows.
-/

namespace TableStore.Table

variable {disk found cleared other : Disk} {root directory : Place} {schema : Schema}

/-! ## Directories that are free -/

/-- Whether a directory is one whose creation has not come to the descriptor: there is no more than
a file where a creation discards or makes one. Anything may be in these files and beside them. -/
structure IsUnfinished (disk : Disk) (directory : Place) : Prop where
  isDirectory : disk.node? directory.path = some .directory
  undescribed : disk.node? (schemaFile directory).path = none
  log : disk.IsFileAtMost (logFile directory).path
  copy : disk.IsFileAtMost (compactFile directory).path
  draft : disk.IsFileAtMost (directory.enter "schema.tmp").path

/-- Whether a directory is free for a table. -/
inductive IsSpare (disk : Disk) (directory : Place) : Prop where
  | vacant (empty : ∀ path, directory.path <+: path → disk.node? path = none)
  | unfinished (h : IsUnfinished disk directory)

theorem IsUnfinished.congr (h : IsUnfinished disk directory)
    (hsame : Disk.AgreesWithin directory.path disk other) : IsUnfinished other directory where
  isDirectory := (hsame _ List.prefix_rfl).trans h.isDirectory
  undescribed := (hsame _ (Place.within_enter directory schemaName)).trans h.undescribed
  log := h.log.congr (hsame _ (Place.within_enter directory _))
  copy := h.copy.congr (hsame _ (Place.within_enter directory _))
  draft := h.draft.congr (hsame _ (Place.within_enter directory _))

theorem IsSpare.congr (h : IsSpare disk directory)
    (hsame : Disk.AgreesWithin directory.path disk other) : IsSpare other directory := by
  cases h with
  | vacant hempty =>
    exact .vacant fun path hwithin ↦ (hsame path hwithin).trans (hempty path hwithin)
  | unfinished h => exact .unfinished (h.congr hsame)

/-- A directory stays unfinished when one of its files changes that is not the descriptor. -/
theorem IsUnfinished.change (h : IsUnfinished disk directory) {file : String}
    (hfile : file ≠ schemaName)
    (hothers : ∀ path, path ≠ (directory.enter file).path → other.node? path = disk.node? path)
    (hself : other.IsFileAtMost (directory.enter file).path) : IsUnfinished other directory := by
  have hkeeps : ∀ name, disk.IsFileAtMost (directory.enter name).path →
      other.IsFileAtMost (directory.enter name).path := by
    intro name hname
    by_cases hsame : name = file
    · rw [hsame]
      exact hself
    · exact hname.congr (hothers _ fun heq ↦ hsame (Place.path_enter_inj.mp heq))
  refine ⟨?_, ?_, hkeeps _ h.log, hkeeps _ h.copy, hkeeps _ h.draft⟩
  · rw [hothers _ (Place.path_enter_ne_self _ _).symm, h.isDirectory]
  · exact (hothers _ fun heq ↦ hfile (Place.path_enter_inj.mp heq).symm).trans h.undescribed

/-! ## Taking over -/

/-- A file that has been discarded is not there, or has not been there. -/
theorem isFileAtMost_of_discard {place : Place} (hpath : place.path ≠ [])
    (hfree : disk.IsFileAtMost place.path) (h : discard disk place = .ok cleared) :
    cleared.IsFileAtMost place.path := by
  unfold discard at h
  split at h
  · next hremove =>
    cases h
    left
    rw [Disk.of_removeFile_eq_ok hremove, Disk.node?_erase hpath, if_pos rfl]
  · cases h
    exact hfree
  · cases h

theorem IsUnfinished.discard (h : IsUnfinished disk directory) {file : String}
    (hfile : file ≠ schemaName) (hfree : disk.IsFileAtMost (directory.enter file).path)
    (hdiscard : Table.discard disk (directory.enter file) = .ok cleared) :
    IsUnfinished cleared directory :=
  h.change hfile (of_discard_eq_ok (Place.path_enter_ne_nil _ _) hdiscard).2
    (isFileAtMost_of_discard (Place.path_enter_ne_nil _ _) hfree hdiscard)

theorem IsUnfinished.clearLeftovers (h : IsUnfinished disk directory)
    (hclear : Table.clearLeftovers disk directory = (.ok (), cleared)) :
    IsUnfinished cleared directory := by
  unfold Table.clearLeftovers at hclear
  split at hclear
  · cases hclear
  · next hlog =>
    split at hclear
    · cases hclear
    · next hcopy =>
      cases hclear
      have hfirst := h.discard (by decide) h.log hlog
      exact hfirst.discard (by decide) hfirst.copy hcopy

/-- Where there is no more than a file under a short name it can be discarded. -/
theorem exists_discard (hreached : disk.IsReached directory.path) {file : String}
    (hfree : disk.IsFileAtMost (directory.enter file).path)
    (hlength : (directory.enter file).length ≤ Disk.textLimit)
    (hname : file.utf8ByteSize ≤ Disk.nameLimit) :
    ∃ cleared, Table.discard disk (directory.enter file) = .ok cleared := by
  rcases hfree with hnone | ⟨content, hthere⟩
  · have hremove : disk.removeFile (directory.enter file) = .error .notFound := by
      rw [Disk.removeFile, Disk.find, Disk.get?_of_node?_eq_none hnone,
        hreached.absence_enter hnone hname, if_neg (Nat.not_lt.mpr hlength)]
    exact ⟨disk, by rw [Table.discard, hremove]⟩
  · have hget := Disk.get?_eq_some_iff.mpr ⟨hlength, hthere⟩
    exact ⟨_, by rw [Table.discard, Disk.removeFile, Disk.find_of_get? hget]⟩

/-- The copy of a compaction has the longest name of the files in a directory. -/
theorem length_le_of_copy (hlength : (compactFile directory).length ≤ Disk.textLimit)
    {file : String} (hfile : file.utf8ByteSize ≤ "data.log.compact".utf8ByteSize) :
    (directory.enter file).length ≤ Disk.textLimit :=
  Nat.le_trans (Place.length_enter_le directory hfile) hlength

/-- Leftovers are cleared if their names are not too long. -/
theorem IsUnfinished.exists_clearLeftovers (h : IsUnfinished disk directory)
    (hreached : disk.IsReached directory.path)
    (hlength : (compactFile directory).length ≤ Disk.textLimit) :
    ∃ cleared, Table.clearLeftovers disk directory = (.ok (), cleared) := by
  obtain ⟨halfway, hlog⟩ :=
    exists_discard hreached h.log (length_le_of_copy hlength (by decide)) (by decide)
  have hchanges := changesWithin_discard (Place.within_enter directory "data.log") hlog
  have hstill : halfway.IsReached directory.path :=
    fun before hbefore ↦ hchanges.directories before (hreached before hbefore)
  obtain ⟨cleared, hcopy⟩ :=
    exists_discard hstill (h.discard (by decide) h.log hlog).copy hlength (by decide)
  refine ⟨cleared, ?_⟩
  rw [Table.clearLeftovers, logFile, hlog]
  dsimp only
  rw [compactFile, hcopy]

/-- An unfinished directory is taken over, unless its text is too long. -/
theorem IsUnfinished.prepareDirectory_eq (h : IsUnfinished disk directory) (schema : Schema) :
    prepareDirectory disk directory schema =
      if Disk.textLimit < directory.length then (.error (.file .nameTooLong), disk)
      else
        match Table.clearLeftovers disk directory with
        | (.error fault, disk) => (.error (.file fault), disk)
        | (.ok (), disk) => (.ok (), disk) := by
  have hundescribed : ¬ disk.has (schemaFile directory) = true := by
    rw [Disk.has, Disk.get?_of_node?_eq_none h.undescribed]
    exact Bool.false_ne_true
  rw [prepareDirectory, Disk.perform, Disk.Step.apply,
    Disk.createDirectory_of_some h.isDirectory]
  by_cases hlong : Disk.textLimit < directory.length
  · rw [if_pos hlong, if_pos hlong]
  · rw [if_neg hlong, if_neg hlong]
    exact if_neg hundescribed

section Root

variable (hroot : disk.node? root.path = some .directory)

include hroot in
/-- A directory that has been prepared is unfinished. -/
theorem isUnfinished_of_prepareDirectory (hspare : IsSpare disk (root.enter schema.name))
    (h : prepareDirectory disk (root.enter schema.name) schema = (.ok (), cleared)) :
    IsUnfinished cleared (root.enter schema.name) := by
  cases hspare with
  | vacant hempty =>
    rw [prepareDirectory_of_vacant hroot hempty] at h
    split at h
    · cases h
    · cases h
      have hmade := empty_of_vacant hempty
      refine ⟨?_, hmade _, .inl (hmade _), .inl (hmade _), .inl (hmade _)⟩
      rw [Disk.node?_set (Place.path_enter_ne_nil _ _), if_pos rfl]
  | unfinished hunfinished =>
    rw [hunfinished.prepareDirectory_eq] at h
    split at h
    · cases h
    · split at h
      · cases h
      · next hclear =>
        cases h
        exact hunfinished.clearLeftovers hclear

end Root

/-! ## Creating again -/

/-- **In an unfinished directory a table is created**, without rows, and nothing changes beside it.
-/
theorem IsUnfinished.exists_create (h : IsUnfinished disk directory)
    (hreached : disk.IsReached directory.path) (hvalid : schema.validate = .ok ())
    (hnamed : (directory.onward schemaName).lead ≠ 0)
    (hdirectory : directory.length ≤ Disk.textLimit)
    (hlength : (compactFile directory).length ≤ Disk.textLimit) (policy : SyncPolicy) :
    ∃ table left, create disk directory schema policy = (.ok table, left) ∧
      table.Holds left schema directory [] ∧
      ∀ path, ¬ directory.path <+: path → left.node? path = disk.node? path := by
  obtain ⟨cleared, hclear⟩ := h.exists_clearLeftovers hreached hlength
  have hprepare := h.prepareDirectory_eq schema
  rw [if_neg (Nat.not_lt.mpr hdirectory), hclear] at hprepare
  have hcleared := h.clearLeftovers hclear
  obtain ⟨hlog, hcopy⟩ := of_clearLeftovers_eq_ok hclear
  have hlogLength : (logFile directory).length ≤ Disk.textLimit :=
    length_le_of_copy hlength (by decide)
  have hshort : (schemaFile directory).length ≤ Disk.textLimit :=
    length_le_of_copy hlength (by decide)
  rw [Disk.get?, if_neg (Nat.not_lt.mpr hlogLength)] at hlog
  exact create_of_prepared hprepare hcleared.isDirectory hcleared.undescribed hcleared.draft hlog
    hcopy hvalid hnamed hshort policy

/-- An unfinished directory is not taken over where the text of the copy is too long. -/
theorem IsUnfinished.create_of_long (h : IsUnfinished disk directory)
    (hreached : disk.IsReached directory.path) (hvalid : schema.validate = .ok ())
    (hlong : Disk.textLimit < (compactFile directory).length) (policy : SyncPolicy) :
    ∃ left, create disk directory schema policy = (.error (.file .nameTooLong), left) := by
  have hremove : ∀ (other : Disk) (file : String),
      Disk.textLimit < (directory.enter file).length →
        Table.discard other (directory.enter file) = .error .nameTooLong := by
    intro other file hfile
    have habsent : other.get? (directory.enter file) = none := by rw [Disk.get?, if_pos hfile]
    rw [Table.discard, Disk.removeFile, Disk.find, habsent, if_pos hfile]
  have hclear : ∃ left, Table.clearLeftovers disk directory = (.error .nameTooLong, left) := by
    by_cases hlogLong : Disk.textLimit < (logFile directory).length
    · exact ⟨disk, by rw [Table.clearLeftovers, logFile, hremove _ _ hlogLong]⟩
    · obtain ⟨halfway, hlog⟩ :=
        exists_discard hreached h.log (Nat.not_lt.mp hlogLong) (by decide)
      refine ⟨halfway, ?_⟩
      rw [Table.clearLeftovers, logFile, hlog]
      dsimp only
      rw [compactFile, hremove _ _ hlong]
  obtain ⟨left, hclear⟩ := hclear
  rw [create, hvalid, h.prepareDirectory_eq, hclear]
  dsimp only
  by_cases hdirectory : Disk.textLimit < directory.length
  · exact ⟨disk, by rw [if_pos hdirectory]⟩
  · exact ⟨left, by rw [if_neg hdirectory]⟩

/-- **In a directory that is free a table is created**, without rows, and nothing changes beside
it. -/
theorem IsSpare.exists_create (hspare : IsSpare disk (root.enter schema.name))
    (hreached : disk.IsReached (root.path)) (hvalid : schema.validate = .ok ())
    (hname : schema.name.utf8ByteSize ≤ Disk.nameLimit)
    (hlength : (compactFile (root.enter schema.name)).length ≤ Disk.textLimit)
    (policy : SyncPolicy) :
    ∃ table left, create disk (root.enter schema.name) schema policy = (.ok table, left) ∧
      table.Holds left schema (root.enter schema.name) [] ∧
      ∀ path, ¬ (root.enter schema.name).path <+: path → left.node? path = disk.node? path := by
  cases hspare with
  | vacant hempty =>
    exact create_of_short hreached.node? hempty hvalid hname
      (length_le_of_copy hlength (by decide)) policy
  | unfinished h =>
    obtain ⟨_, _, hname⟩ := (Schema.isValid_of_validate hvalid).plainName
    have hdirectory : (root.enter schema.name).length ≤ Disk.textLimit := by
      have henter := Place.length_enter_enter hname root "data.log.compact"
      rw [compactFile, henter] at hlength
      omega
    exact h.exists_create (hreached.enter h.isDirectory) hvalid
      (Place.lead_onward_enter hname root schemaName) hdirectory hlength policy

/-! ## Where a creation can stop -/

/-- How the disk is found when a creation has stopped. -/
inductive CreationStops (disk : Disk) (directory : Place) (schema : Schema) : Disk → Prop where
  | untouched : CreationStops disk directory schema disk
  /-- The directory has been there before, and its log has been discarded. -/
  | clearing {found : Disk} (hthere : disk.has directory = true)
      (h : discard disk (logFile directory) = .ok found) : CreationStops disk directory schema found
  /-- The directory is there, and its leftovers are gone. -/
  | prepared {found : Disk} (h : prepareDirectory disk directory schema = (.ok (), found)) :
      CreationStops disk directory schema found
  /-- Any beginning of the descriptor is in the draft. -/
  | drafting {prepared found : Disk} {draft : Place} {bytes written : Bytes}
      (hprepared : prepareDirectory disk directory schema = (.ok (), prepared))
      (hdraft : prepared.locate ((directory.onward schemaName).withExtension "tmp") = .ok draft)
      (hbytes : Descriptor.encode schema = .ok bytes) (hwritten : written <+: bytes)
      (h : prepared.perform (Descriptor.draftSteps draft written) = (.ok (), found)) :
      CreationStops disk directory schema found
  /-- The descriptor is in its place, and there is no log. -/
  | described {prepared found : Disk}
      (hprepared : prepareDirectory disk directory schema = (.ok (), prepared))
      (h : Descriptor.save prepared (directory.onward schemaName) schema = (.ok (), found)) :
      CreationStops disk directory schema found
  | done {found : Disk} {policy : SyncPolicy} {table : Table}
      (h : create disk directory schema policy = (.ok table, found)) :
      CreationStops disk directory schema found

/-- Whether a directory is one of a table of the given schema without rows. Its log may not have
been made yet. -/
structure IsDescribed (disk : Disk) (directory : Place) (schema : Schema) : Prop where
  isDirectory : disk.node? directory.path = some .directory
  load : Descriptor.load disk (directory.onward schemaName) schema.name = .ok schema
  log : disk.get? (logFile directory) = none ∨ disk.get? (logFile directory) = some (.file [])
  copy : disk.get? (compactFile directory) = none

/-- A creation that stops has changed nothing beside its directory. -/
theorem CreationStops.changesWithin (h : CreationStops disk directory schema found) :
    Disk.ChangesWithin directory.path disk found := by
  have hprepare : ∀ prepared, prepareDirectory disk directory schema = (.ok (), prepared) →
      Disk.ChangesWithin directory.path disk prepared := by
    intro prepared h
    have hprepared := changesWithin_prepareDirectory disk directory schema
    rwa [h] at hprepared
  cases h with
  | untouched => exact .refl _ _
  | clearing _ h => exact changesWithin_discard (Place.within_enter _ _) h
  | prepared h => exact hprepare _ h
  | @drafting prepared _ draft _ written hprepared hdraft _ _ h =>
    have hwithin : directory.path <+: draft.path := by
      rw [path_of_locate_draft hdraft]
      exact Place.within_enter _ _
    have hdrafted := Disk.ChangesWithin.perform (staysIn_draftSteps hwithin written) prepared
    rw [h] at hdrafted
    exact (hprepare _ hprepared).trans hdrafted
  | @described prepared _ hprepared h =>
    have hsaved := changesWithin_save prepared directory schema
    rw [h] at hsaved
    exact (hprepare _ hprepared).trans hsaved
  | @done _ policy _ h =>
    unfold create at h
    split at h
    · cases h
    · split at h
      · cases h
      · next prepared hprepared =>
        have hfurnished := changesWithin_furnish prepared directory schema policy
        split at h
        · next hfurnish =>
          cases h
          rw [hfurnish] at hfurnished
          exact (hprepare _ hprepared).trans hfurnished
        · cases h

section Root

variable (hroot : disk.node? root.path = some .directory)

include hroot in
/-- **Where a creation stops the directory is free or one of a table without rows.** -/
theorem CreationStops.isSpare_or_isDescribed (htree : disk.IsTree)
    (hspare : IsSpare disk (root.enter schema.name))
    (h : CreationStops disk (root.enter schema.name) schema found) :
    IsSpare found (root.enter schema.name) ∨
      IsDescribed found (root.enter schema.name) schema := by
  cases h with
  | untouched => exact .inl hspare
  | clearing hthere h =>
    cases hspare with
    | vacant hempty =>
      rw [Disk.has, Disk.get?_of_node?_eq_none (hempty _ List.prefix_rfl)] at hthere
      cases hthere
    | unfinished hunfinished =>
      exact .inl (.unfinished (hunfinished.discard (by decide) hunfinished.log h))
  | prepared h => exact .inl (.unfinished (isUnfinished_of_prepareDirectory hroot hspare h))
  | @drafting prepared _ draft _ written hprepared hdraft _ _ h =>
    have hunfinished := isUnfinished_of_prepareDirectory hroot hspare hprepared
    have hpath := path_of_locate_draft hdraft
    have hdraftNotRoot : draft.path ≠ [] := hpath ▸ Place.path_enter_ne_nil _ _
    have hname : "schema.tmp" ≠ schemaName := by decide
    rw [(Descriptor.isDrafted_of_perform h).eq]
    refine .inl (.unfinished (hunfinished.change hname ?_ (.inr ⟨written, ?_⟩)))
    · intro path hother
      rw [Disk.node?_set hdraftNotRoot, if_neg (hpath ▸ hother.symm)]
    · rw [Disk.node?_set hdraftNotRoot, if_pos hpath]
  | @described prepared _ hprepared h =>
    have hunfinished := isUnfinished_of_prepareDirectory hroot hspare hprepared
    have hsaved := changesWithin_save prepared (root.enter schema.name) schema
    obtain ⟨hlog, hcopy⟩ := of_prepareDirectory_eq_ok htree hprepared
    obtain ⟨hload, hothers⟩ := of_save_eq_ok h
    rw [h] at hsaved
    refine .inr ⟨hsaved.directories _ hunfinished.isDirectory, hload, .inl ?_, ?_⟩
    · rw [← hlog]
      exact Disk.get?_congr (hothers _ (by decide) (by decide))
    · rw [← hcopy]
      exact Disk.get?_congr (hothers _ (by decide) (by decide))
  | done h =>
    obtain ⟨hstores, hschema, hplace, hdirectory⟩ := stores_of_create htree h
    rw [← hplace, ← hschema]
    refine .inr ⟨?_, hstores.descriptor, .inr hstores.file, hstores.finished⟩
    rw [hplace]
    exact hdirectory

end Root

/-! ## Opening -/

/-- A log without records opens as an empty one, and is made if it is not there. -/
theorem IsDescribed.openLog (h : IsDescribed disk directory schema) (policy : SyncPolicy) :
    AppendLog.openAt disk (logFile directory) policy =
      (.ok (⟨logFile directory, policy, 0, 0, false⟩, Recovery.inspect []),
        disk.set (logFile directory).path (.file [])) := by
  rcases h.log with hnone | hfile
  · exact openLog_of_none h.isDirectory h.load hnone policy
  · have hopen := AppendLog.openAt_of_file (logFile_ne_nil _) hfile policy
    rwa [Frame.frames_nil] at hopen

/-- **A directory with a descriptor and without rows opens as a table without rows.** -/
theorem IsDescribed.exists_openAt (h : IsDescribed disk directory schema)
    (hvalid : schema.validate = .ok ()) (policy : SyncPolicy) :
    ∃ table opened, openAt disk directory schema.name policy = (.ok table, opened) ∧
      table.Holds opened schema directory [] := by
  obtain ⟨format, hformat⟩ := (Schema.isValid_of_validate hvalid).exists_format
  have hrows : ∀ row ∈ ([] : List Row), format.IsRow row := nofun
  have hfile := Disk.get?_set_self (logFile_ne_nil directory)
    (length_logFile_le_of_load h.load) disk (.file [])
  have hrebuild : Index.rebuild ⟨logFile directory, policy, 0, 0, false⟩
      (disk.set (logFile directory).path (.file [])) format = (.ok 0, ∅) :=
    Index.rebuild_of_rows hfile rfl hrows
  refine ⟨_, _, openAt_eq_ok_iff.mpr ⟨schema, format, disk, _, _, _, _, h.load, hformat,
    removeStale_of_none h.copy, h.openLog policy, hrebuild, rfl⟩, ⟨rfl, rfl, rfl, hfile, hrows, rfl,
      ?_, hformat, ?_⟩, rfl, rfl, ?_⟩
  · rw [get?_compactFile_set_logFile, h.copy]
  · exact load_congr (node?_set_logFile (schemaFile_ne_logFile _) _) h.load
  · rw [node?_set_logFile (Place.path_enter_ne_self _ _).symm, h.isDirectory]

end TableStore.Table

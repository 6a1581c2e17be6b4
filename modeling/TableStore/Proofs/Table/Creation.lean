import TableStore.Proofs.Table.Changes
import TableStore.Proofs.Table.Within

/-!
# Creating a table where nothing stands

The name of a valid schema is a plain name, so that it leads from the data directory to an entry of
it and nowhere else. If nothing stands there, a table is created unless a text or a name is too
long, and if it is, then what has been made by then is removed again.
-/

namespace TableStore

/-! ## Names of tables -/

namespace Schema

/-- The name of a valid schema leads to an entry, and has no zero in it. -/
theorem IsValid.plainName {schema : Schema} (h : schema.IsValid) :
    Route.IsEntry schema.name ∧ '\x00' ∉ schema.name.toList ∧ schema.name ≠ "" := by
  have hchars : ∀ c ∈ schema.name.toList, isNameChar c = true := List.all_eq_true.mp h.name_chars
  have hempty : schema.name ≠ "" := by
    intro heq
    have hname := h.name_ne_empty
    rw [heq] at hname
    cases hname
  have hdot : '.' ∉ schema.name.toList := fun hmem ↦ absurd (hchars _ hmem) (by decide)
  refine ⟨⟨?_, ?_⟩, fun hmem ↦ absurd (hchars _ hmem) (by decide), hempty⟩
  · have hnotDot : schema.name ≠ "." := by
      intro heq
      rw [heq] at hdot
      exact hdot (by decide)
    simp [Route.isStill, hempty, hnotDot]
  · intro heq
    rw [heq] at hdot
    exact hdot (by decide)

end Schema

namespace Table

variable {disk : Disk} {root directory : Place} {route : Route} {schema : Schema}
  {format : RecordFormat}

/-! ## In a directory without a descriptor -/

/-- A descriptor that can be loaded is there. -/
theorem has_schemaFile_of_load {name : String}
    (h : Descriptor.load disk (directory.onward schemaName) name = .ok schema) :
    disk.has (schemaFile directory) = true := by
  rw [Descriptor.load, Disk.readAt, locate_descriptor] at h
  by_cases hlong : Disk.textLimit < (schemaFile directory).length
  · rw [if_pos hlong] at h
    cases h
  · rw [if_neg hlong] at h
    dsimp only at h
    cases hget : disk.get? ⟨(schemaFile directory).path, directory.onward schemaName⟩ with
    | none =>
      rw [Disk.read, Disk.find, hget] at h
      cases h
    | some node =>
      have hthere : disk.get? (schemaFile directory) = some node :=
        Disk.get?_eq_some_iff.mpr ⟨Nat.not_lt.mp hlong, (Disk.get?_eq_some_iff.mp hget).2⟩
      rw [Disk.has, hthere]
      rfl

/-- Where nothing is in a directory, a short name can be given to a file. -/
theorem free_of_none (hdirectory : disk.node? directory.path = some .directory) {place : Place}
    {file : String} (hplace : place.path = (directory.enter file).path)
    (hnone : disk.node? place.path = none) (hfile : file.utf8ByteSize ≤ Disk.nameLimit)
    (hlength : place.length ≤ Disk.textLimit) :
    disk.get? place = none ∧ disk.entryFault? place = none := by
  have hparent : disk.node? place.path.dropLast = some .directory := by
    rw [hplace, Place.dropLast_path_enter, hdirectory]
  have hname : place.path.getLastD "" = file := by
    rw [hplace, Place.path_enter, List.getLastD_concat]
  refine ⟨Disk.get?_of_node?_eq_none hnone, ?_⟩
  rw [Disk.entryFault?_of_directory hparent, hname]
  simp [Nat.not_lt.mpr hlength, Nat.not_lt.mpr hfile]

/-- Beside a descriptor the name of a log is not too long. -/
theorem length_logFile_le_of_load {name : String}
    (h : Descriptor.load disk (directory.onward schemaName) name = .ok schema) :
    (logFile directory).length ≤ Disk.textLimit := by
  have hthere := has_schemaFile_of_load h
  rw [Disk.has, Option.isSome_iff_exists] at hthere
  obtain ⟨node, hget⟩ := hthere
  have hnames : "data.log".utf8ByteSize ≤ schemaName.utf8ByteSize := by decide
  exact Nat.le_trans (Place.length_enter_le directory hnames) (Disk.get?_eq_some_iff.mp hget).1

/-- Beside a descriptor a log that is not there is made, and opens as an empty one. -/
theorem openLog_of_none {name : String} (hdirectory : disk.node? directory.path = some .directory)
    (hload : Descriptor.load disk (directory.onward schemaName) name = .ok schema)
    (hnone : disk.get? (logFile directory) = none) (policy : SyncPolicy) :
    AppendLog.openAt disk (logFile directory) policy =
      (.ok (⟨logFile directory, policy, 0, 0, false⟩, Recovery.inspect []),
        disk.set (logFile directory).path (.file [])) := by
  have hlength := length_logFile_le_of_load hload
  have hnode : disk.node? (logFile directory).path = none := by
    rwa [Disk.get?, if_neg (Nat.not_lt.mpr hlength)] at hnone
  exact AppendLog.openAt_of_none (logFile_ne_nil _) hnone
    (free_of_none hdirectory rfl hnode (by decide) hlength).2 policy

/-- Where there is no more than a file, an empty file can be made. -/
theorem createFile_of_isFileAtMost (hdirectory : disk.node? directory.path = some .directory)
    {place : Place} {file : String} (hplace : place.path = (directory.enter file).path)
    (hfree : disk.IsFileAtMost place.path) (hfile : file.utf8ByteSize ≤ Disk.nameLimit)
    (hlength : place.length ≤ Disk.textLimit) :
    disk.createFile place = .ok (disk.set place.path (.file [])) := by
  have hpath : place.path ≠ [] := hplace ▸ Place.path_enter_ne_nil _ _
  rcases hfree with hnone | ⟨content, hthere⟩
  · obtain ⟨habsent, hfits⟩ := free_of_none hdirectory hplace hnone hfile hlength
    rw [Disk.createFile_of_none hpath habsent, hfits]
  · have hget := Disk.get?_eq_some_iff.mpr ⟨hlength, hthere⟩
    rw [Disk.createFile, Disk.ensureFile_of_file hget]
    exact Disk.modifyFile_of_file hget _

section Undescribed

variable (hdirectory : disk.node? directory.path = some .directory)
  (hschema : disk.node? (schemaFile directory).path = none)
  (hdraft : disk.IsFileAtMost (directory.enter "schema.tmp").path)
  (hnamed : (directory.onward schemaName).lead ≠ 0)

include hdirectory hschema hdraft hnamed

/-- A descriptor is drafted and put in its place, and its directory is flushed. -/
theorem perform_saveSteps {draft place : Place} (bytes : Bytes)
    (hdraftPath : draft.path = (directory.enter "schema.tmp").path)
    (hplacePath : place.path = (schemaFile directory).path)
    (hplaceRoute : place.route = directory.onward schemaName)
    (hdraftLength : draft.length ≤ Disk.textLimit) (hplaceLength : place.length ≤ Disk.textLimit) :
    disk.perform (Descriptor.saveSteps draft place bytes) =
      (.ok (), ((disk.set draft.path (.file bytes)).erase draft.path).set place.path
        (.file bytes)) := by
  have hdraftNotRoot : draft.path ≠ [] := hdraftPath ▸ Place.path_enter_ne_nil _ _
  have hplaceNotRoot : place.path ≠ [] := hplacePath ▸ schemaFile_ne_nil _
  have hbeside : draft.path ≠ place.path := by
    rw [hdraftPath, hplacePath, schemaFile, Ne, Place.path_enter_inj]
    decide
  have hbelow : draft.path ≠ place.path.dropLast := by
    rw [hdraftPath, hplacePath, schemaFile, Place.dropLast_path_enter]
    exact Place.path_enter_ne_self _ _
  have hcreate := createFile_of_isFileAtMost hdirectory hdraftPath (hdraftPath ▸ hdraft)
    (by decide) hdraftLength
  have hmade := Descriptor.isDrafted_of_createFile hcreate
  have happend := Disk.modifyFile_of_file hmade.get? (· ++ bytes)
  rw [Disk.set_set, List.nil_append] at happend
  have hwritten := hmade.append happend
  rw [List.nil_append] at hwritten
  have hnoPlace : disk.node? place.path = none := hplacePath ▸ hschema
  obtain ⟨hnone, hplaceFits⟩ :=
    free_of_none hdirectory hplacePath hnoPlace (by decide) hplaceLength
  have hstill : (disk.set draft.path (.file bytes)).get? place = none := by
    rw [Disk.get?_set_of_ne hdraftNotRoot hbeside, hnone]
  have hfits : (disk.set draft.path (.file bytes)).entryFault? place = none :=
    Disk.entryFault?_set_of_ne hdraftNotRoot hbelow hplaceFits _
  have hflush : (((disk.set draft.path (.file bytes)).erase draft.path).set place.path
      (.file bytes)).flushAt place.route.holder = .ok () := by
    rw [hplaceRoute]
    exact Disk.flushAt_onward ⟨rfl, by decide⟩
      (hwritten.node?_of_directory hplaceNotRoot hnoPlace hdirectory) hnamed
      (hplaceRoute ▸ hplaceLength)
  dsimp only [Descriptor.saveSteps, Descriptor.draftSteps, List.cons_append, List.nil_append,
    Disk.perform, Disk.Step.apply]
  rw [hcreate]
  dsimp only
  rw [happend]
  dsimp only
  rw [Disk.rename_of_none hwritten.get? hstill hfits]
  dsimp only
  rw [hflush]

/-- Where there is no descriptor one can be saved unless its text is too long. -/
theorem save_of_undescribed (hvalid : schema.validate = .ok ()) :
    Descriptor.save disk (directory.onward schemaName) schema =
      if Disk.textLimit < (schemaFile directory).length then (.error (.file .nameTooLong), disk)
      else (.ok (), ((disk.set (directory.enter "schema.tmp").path
          (.file (Descriptor.withChecksum (Descriptor.content schema)))).erase
            (directory.enter "schema.tmp").path).set (schemaFile directory).path
              (.file (Descriptor.withChecksum (Descriptor.content schema)))) := by
  have hroute := locate_descriptor disk directory
  by_cases hlong : Disk.textLimit < (schemaFile directory).length
  · rw [if_pos hlong] at hroute
    have habsent : ¬ disk.hasAt (directory.onward schemaName) = true := by
      rw [Disk.hasAt, hroute]
      exact Bool.false_ne_true
    rw [Descriptor.save, if_neg habsent, Descriptor.encode, hvalid, locate_draft]
    dsimp only
    rw [if_pos hlong, if_pos hlong]
  · rw [if_neg hlong] at hroute
    have hdraftLength : ((directory.onward schemaName).withExtension "tmp").length ≤
        Disk.textLimit := by
      rw [length_draft]
      exact Nat.not_lt.mp hlong
    have hplaceLength : (directory.onward schemaName).length ≤ Disk.textLimit := by
      rw [Place.length_onward]
      exact Nat.not_lt.mp hlong
    have hsave : disk.perform (Descriptor.saveSteps
        ⟨(directory.enter "schema.tmp").path, (directory.onward schemaName).withExtension "tmp"⟩
        ⟨(schemaFile directory).path, directory.onward schemaName⟩
        (Descriptor.withChecksum (Descriptor.content schema))) = _ :=
      perform_saveSteps hdirectory hschema hdraft hnamed _ rfl rfl rfl hdraftLength hplaceLength
    have habsent : ¬ disk.hasAt (directory.onward schemaName) = true := by
      have hnone : disk.get? ⟨(schemaFile directory).path, directory.onward schemaName⟩ = none :=
        Disk.get?_of_node?_eq_none hschema
      rw [Disk.hasAt, hroute]
      dsimp only
      rw [Disk.has, hnone]
      exact Bool.false_ne_true
    rw [Descriptor.save, if_neg habsent, Descriptor.encode, hvalid, locate_draft]
    dsimp only
    rw [if_neg hlong, if_neg hlong]
    dsimp only
    rw [Descriptor.store, hroute]
    dsimp only
    rw [hsave]

omit hnamed in
/-- Where there is no descriptor a table is furnished unless the text of its descriptor is too long,
and then nothing happens. -/
theorem furnish_of_long (hvalid : schema.validate = .ok ())
    (hformat : RecordFormat.ofSchema schema = .ok format)
    (hlong : Disk.textLimit < (schemaFile directory).length) (policy : SyncPolicy) :
    furnish disk directory schema policy = (.error (.file .nameTooLong), disk) := by
  have hnamed : (directory.onward schemaName).lead ≠ 0 := by
    intro hlead
    rw [schemaFile, ← Place.lead_onward_add, hlead] at hlong
    exact absurd hlong (by decide)
  rw [furnish, hformat]
  dsimp only
  rw [save_of_undescribed hdirectory hschema hdraft hnamed hvalid, if_pos hlong]

theorem furnish_of_short (hlog : disk.node? (logFile directory).path = none)
    (hvalid : schema.validate = .ok ())
    (hformat : RecordFormat.ofSchema schema = .ok format)
    (hshort : (schemaFile directory).length ≤ Disk.textLimit) (policy : SyncPolicy) :
    ∃ table opened, furnish disk directory schema policy = (.ok table, opened) := by
  have hnames : "data.log".utf8ByteSize ≤ schemaName.utf8ByteSize := by decide
  have hlength : (logFile directory).length ≤ Disk.textLimit :=
    Nat.le_trans (Place.length_enter_le directory hnames) hshort
  have hsave := save_of_undescribed hdirectory hschema hdraft hnamed hvalid
  rw [if_neg (Nat.not_lt.mpr hshort)] at hsave
  have hsaved := changesWithin_save disk directory schema
  obtain ⟨_, hothers⟩ := of_save_eq_ok hsave
  rw [hsave] at hsaved
  have hstillNoLog := (hothers "data.log" (by decide) (by decide)).trans hlog
  have hlogPath : (logFile directory).path = (directory.enter "data.log").path := rfl
  obtain ⟨hnone, hfits⟩ := free_of_none (hsaved.directories _ hdirectory) hlogPath hstillNoLog
    (by decide) hlength
  rw [furnish, hformat]
  dsimp only
  rw [hsave]
  dsimp only
  rw [AppendLog.openAt_of_none (logFile_ne_nil _) hnone hfits]
  exact ⟨_, _, rfl⟩

end Undescribed

/-- In a directory that has been prepared a table is created, without rows, and nothing changes
beside it. -/
theorem create_of_prepared {prepared : Disk}
    (hprepare : prepareDirectory disk directory schema = (.ok (), prepared))
    (hdirectory : prepared.node? directory.path = some .directory)
    (hschema : prepared.node? (schemaFile directory).path = none)
    (hdraft : prepared.IsFileAtMost (directory.enter "schema.tmp").path)
    (hlog : prepared.node? (logFile directory).path = none)
    (hcopy : prepared.get? (compactFile directory) = none) (hvalid : schema.validate = .ok ())
    (hnamed : (directory.onward schemaName).lead ≠ 0)
    (hshort : (schemaFile directory).length ≤ Disk.textLimit) (policy : SyncPolicy) :
    ∃ table left, create disk directory schema policy = (.ok table, left) ∧
      table.Holds left schema directory [] ∧
      ∀ path, ¬ directory.path <+: path → left.node? path = disk.node? path := by
  obtain ⟨format, hformat⟩ := (Schema.isValid_of_validate hvalid).exists_format
  obtain ⟨table, left, hfurnish⟩ :=
    furnish_of_short hdirectory hschema hdraft hnamed hlog hvalid hformat hshort policy
  obtain ⟨hstores, hsame, hplace, hthere⟩ :=
    stores_of_furnish (Disk.get?_of_node?_eq_none hlog) hcopy hfurnish
  have hprepared := changesWithin_prepareDirectory disk directory schema
  rw [hprepare] at hprepared
  have hfurnished := hprepared.trans (changesWithin_furnish prepared directory schema policy)
  rw [hfurnish] at hfurnished
  refine ⟨table, left, ?_, ⟨hstores, hsame, hplace, hthere⟩, hfurnished.beside⟩
  rw [create, hvalid, hprepare]
  dsimp only
  rw [hfurnish]

/-! ## Where nothing stands -/

section Vacant

variable (hlocate : disk.locate route = .ok root) (hroot : disk.node? root.path = some .directory)
  (hvacant : ∀ path, (root.enter schema.name).path <+: path → disk.node? path = none)
  (hvalid : schema.validate = .ok ())

include hvacant in
/-- A directory made where nothing stands has nothing in it. -/
theorem empty_of_vacant (file : String) :
    (disk.set (root.enter schema.name).path .directory).node?
      ((root.enter schema.name).enter file).path = none := by
  rw [Disk.node?_set (Place.path_enter_ne_nil _ _),
    if_neg (Place.path_enter_ne_self (root.enter schema.name) file).symm]
  exact hvacant _ (List.prefix_append _ _)

include hroot hvacant in
/-- The directory of a table is made unless its text or its name is too long. -/
theorem prepareDirectory_of_vacant :
    prepareDirectory disk (root.enter schema.name) schema =
      if Disk.textLimit < (root.enter schema.name).length ∨
          Disk.nameLimit < schema.name.utf8ByteSize then
        (.error (.file .nameTooLong), disk)
      else (.ok (), disk.set (root.enter schema.name).path .directory) := by
  have hnone : disk.get? (root.enter schema.name) = none :=
    Disk.get?_of_node?_eq_none (hvacant _ List.prefix_rfl)
  have hparent : disk.node? (root.enter schema.name).path.dropLast = some .directory := by
    rw [Place.dropLast_path_enter, hroot]
  have hname : (root.enter schema.name).path.getLastD "" = schema.name := by
    rw [Place.path_enter, List.getLastD_concat]
  have hcreate := Disk.createDirectory_of_none hnone
  rw [Disk.entryFault?_of_directory hparent, hname] at hcreate
  rw [prepareDirectory, Disk.perform, Disk.Step.apply, hcreate]
  by_cases hlong : Disk.textLimit < (root.enter schema.name).length ∨
      Disk.nameLimit < schema.name.utf8ByteSize
  · rw [if_pos hlong, if_pos hlong]
  · rw [if_neg hlong, if_neg hlong]
    rfl

include hlocate hroot hvalid in
/-- The directory of a table is found as long as no directory is gone. -/
theorem locate_of_directories {other : Disk}
    (hkeeps : ∀ path, disk.node? path = some .directory → other.node? path = some .directory)
    (hlength : (root.enter schema.name).length ≤ Disk.textLimit) :
    other.locate (root.enter schema.name).route = .ok (root.enter schema.name) := by
  obtain ⟨hentry, hzero, _⟩ := (Schema.isValid_of_validate hvalid).plainName
  have hroute := (Disk.locate_eq_ok_iff.mp hlocate).2.2
  apply Disk.locate_join hentry hzero (hkeeps _ hroot) (Disk.locate_of_directories hkeeps hlocate)
  rw [← hroute]
  exact hlength

include hlocate hroot hvacant hvalid in
/-- The directory of a table is found as long as nothing has changed beside it. -/
theorem locate_of_vacant (hlength : (root.enter schema.name).length ≤ Disk.textLimit)
    {other : Disk}
    (hbeside : ∀ path, ¬ (root.enter schema.name).path <+: path →
      other.node? path = disk.node? path) :
    other.locate (root.enter schema.name).route = .ok (root.enter schema.name) := by
  refine locate_of_directories hlocate hroot hvalid ?_ hlength
  intro path hdirectory
  rw [hbeside, hdirectory]
  intro hwithin
  rw [hvacant path hwithin] at hdirectory
  cases hdirectory

include hlocate hroot hvacant hvalid in
/-- A directory made where nothing stands can be removed again, and then all is as it was. -/
theorem removeTreeAt_of_vacant (hlength : (root.enter schema.name).length ≤ Disk.textLimit) :
    ∃ left, (disk.set (root.enter schema.name).path .directory).removeTreeAt
        (root.enter schema.name).route = (.ok (), left) ∧
      ∀ path, left.node? path = disk.node? path := by
  have hpath : (root.enter schema.name).path ≠ [] := Place.path_enter_ne_nil _ _
  have hmade : ∀ path, ¬ (root.enter schema.name).path <+: path →
      (disk.set (root.enter schema.name).path .directory).node? path = disk.node? path := by
    intro path hbeside
    rw [Disk.node?_set hpath, if_neg]
    rintro rfl
    exact hbeside List.prefix_rfl
  have hemptied : ∀ path, ¬ (root.enter schema.name).path <+: path →
      ((disk.set (root.enter schema.name).path .directory).eraseBelow
        (root.enter schema.name).path).node? path = disk.node? path := by
    intro path hbeside
    rw [Disk.node?_eraseBelow, if_neg fun hbelow ↦ hbeside hbelow.1, hmade path hbeside]
  refine ⟨_, Disk.removeTreeAt_of_directory
    (locate_of_vacant hlocate hroot hvacant hvalid hlength hmade)
    (Disk.get?_set_self hpath hlength disk .directory)
    (locate_of_vacant hlocate hroot hvacant hvalid hlength hemptied)
    (Route.endsInDot_join (Schema.isValid_of_validate hvalid).plainName.1), ?_⟩
  intro path
  rw [Disk.node?_erase hpath]
  by_cases hwithin : (root.enter schema.name).path <+: path
  · rw [hvacant path hwithin, Disk.node?_eraseBelow]
    by_cases hsame : (root.enter schema.name).path = path
    · rw [if_pos hsame]
    · rw [if_neg hsame, if_pos ⟨hwithin, Ne.symm hsame⟩]
  · rw [if_neg, hemptied path hwithin]
    rintro rfl
    exact hwithin List.prefix_rfl

include hlocate hroot hvacant hvalid in
/-- **Where a text or a name is too long no table is created**, and all is as it was. -/
theorem create_of_long
    (hlong : Disk.nameLimit < schema.name.utf8ByteSize ∨
      Disk.textLimit < (schemaFile (root.enter schema.name)).length) (policy : SyncPolicy) :
    ∃ left, create disk (root.enter schema.name) schema policy =
        (.error (.file .nameTooLong), left) ∧ ∀ path, left.node? path = disk.node? path := by
  have hprepare := prepareDirectory_of_vacant hroot hvacant
  by_cases hdirectoryLong : Disk.textLimit < (root.enter schema.name).length ∨
      Disk.nameLimit < schema.name.utf8ByteSize
  · rw [if_pos hdirectoryLong] at hprepare
    refine ⟨disk, ?_, fun _ ↦ rfl⟩
    rw [create, hvalid, hprepare]
  · rw [if_neg hdirectoryLong] at hprepare
    obtain ⟨hlength, hname⟩ := not_or.mp hdirectoryLong
    obtain ⟨format, hformat⟩ := (Schema.isValid_of_validate hvalid).exists_format
    have hthere := Disk.get?_set_self (Place.path_enter_ne_nil root schema.name)
      (Nat.not_lt.mp hlength) disk .directory
    have hfurnish := furnish_of_long (Disk.get?_eq_some_iff.mp hthere).2 (empty_of_vacant hvacant _)
      (.inl (empty_of_vacant hvacant _)) hvalid hformat (hlong.resolve_left hname) policy
    obtain ⟨left, hremove, hleft⟩ :=
      removeTreeAt_of_vacant hlocate hroot hvacant hvalid (Nat.not_lt.mp hlength)
    refine ⟨left, ?_, hleft⟩
    rw [create, hvalid, hprepare]
    dsimp only
    rw [hfurnish]
    dsimp only
    rw [hremove]

include hroot hvacant hvalid in
/-- **Where nothing stands a table is created**, and nothing changes beside it. -/
theorem create_of_short (hname : schema.name.utf8ByteSize ≤ Disk.nameLimit)
    (hshort : (schemaFile (root.enter schema.name)).length ≤ Disk.textLimit)
    (policy : SyncPolicy) :
    ∃ table left, create disk (root.enter schema.name) schema policy = (.ok table, left) ∧
      table.Holds left schema (root.enter schema.name) [] ∧
      ∀ path, ¬ (root.enter schema.name).path <+: path → left.node? path = disk.node? path := by
  obtain ⟨_, _, hempty⟩ := (Schema.isValid_of_validate hvalid).plainName
  have hpath : (root.enter schema.name).path ≠ [] := Place.path_enter_ne_nil _ _
  have hlength : (root.enter schema.name).length ≤ Disk.textLimit := by
    rw [schemaFile, Place.length_enter_enter hempty] at hshort
    omega
  have hfits : ¬ (Disk.textLimit < (root.enter schema.name).length ∨
      Disk.nameLimit < schema.name.utf8ByteSize) := by omega
  have hprepare := prepareDirectory_of_vacant hroot hvacant
  rw [if_neg hfits] at hprepare
  have hthere := Disk.get?_set_self hpath hlength disk .directory
  have hmade := empty_of_vacant hvacant
  exact create_of_prepared hprepare (Disk.get?_eq_some_iff.mp hthere).2 (hmade _)
    (.inl (hmade _)) (hmade _) (Disk.get?_of_node?_eq_none (hmade _)) hvalid
    (Place.lead_onward_enter hempty root schemaName) hshort policy

end Vacant

end Table

end TableStore

import TableStore.Proofs.Disk.Within
import TableStore.Proofs.Table.Lifecycle

/-!
# Tables stay in their directories

Creating a table and opening one are done with the files of one directory. So nothing changes beside
it, whether that succeeds or not, and a table opens in the same way on every disk that has the same
in its directory.
-/

namespace TableStore

open Disk

variable {disk other after : Disk} {directory : Place} {schema : Schema}

/-- The files of a directory are within it. -/
theorem Place.within_enter (directory : Place) (name : String) :
    directory.path <+: (directory.enter name).path :=
  List.prefix_append _ _

/-! ## Logs -/

/-- A recovery changes the log only. -/
theorem Recovery.changesWithin (disk : Disk) {place : Place} {directory : Path}
    (hwithin : directory <+: place.path) :
    ChangesWithin directory disk (recover disk place).2 := by
  unfold recover
  split
  · exact .refl _ _
  · split
    · split
      · exact .refl _ _
      · next hcut => exact .modifyFile hwithin hcut
    · exact .refl _ _

theorem AppendLog.changesWithin (disk : Disk) {place : Place} {directory : Path}
    (hwithin : directory <+: place.path) (policy : SyncPolicy) :
    ChangesWithin directory disk (openAt disk place policy).2 := by
  unfold openAt
  split
  · exact .refl _ _
  · next made hensure =>
    have hmade := ChangesWithin.ensureFile hwithin hensure
    have hrecovered := hmade.trans (Recovery.changesWithin made hwithin)
    split
    · next hrecover => rwa [hrecover] at hrecovered
    · next hrecover => rwa [hrecover] at hrecovered

/-- A log recovers as its directory says. -/
theorem Recovery.recover_congr {place : Place} {report : Recovery} {directory : Path}
    (hsame : AgreesWithin directory disk other) (hwithin : directory <+: place.path)
    (h : recover disk place = (.ok report, after)) :
    ∃ left, recover other place = (.ok report, left) ∧ AgreesWithin directory after left := by
  unfold recover verify Disk.read at h ⊢
  cases hfind : disk.find place with
  | error fault => rw [hfind] at h; cases h
  | ok node =>
    rw [hfind] at h
    rw [hsame.find hwithin hfind]
    dsimp only at h ⊢
    cases hcontent : node.content? with
    | error fault => rw [hcontent] at h; cases h
    | ok content =>
      rw [hcontent] at h
      dsimp only at h ⊢
      split at h
      · next htorn =>
        rw [if_pos htorn]
        split at h
        · cases h
        · next hcut =>
          cases h
          obtain ⟨left, hmodify, hleft⟩ := hsame.modifyFile hwithin hcut
          exact ⟨left, by rw [hmodify], hleft⟩
      · next hwhole =>
        cases h
        exact ⟨other, by rw [if_neg hwhole], hsame⟩

/-- A log opens as its directory says. -/
theorem AppendLog.openAt_congr {file : String} {policy : SyncPolicy} {log : AppendLog}
    {report : Recovery} (hsame : AgreesWithin directory.path disk other)
    (h : openAt disk (directory.enter file) policy = (.ok (log, report), after)) :
    ∃ left, openAt other (directory.enter file) policy = (.ok (log, report), left) ∧
      AgreesWithin directory.path after left := by
  have hwithin := Place.within_enter directory file
  unfold openAt at h ⊢
  cases hensure : disk.ensureFile (directory.enter file) with
  | error fault => rw [hensure] at h; cases h
  | ok made =>
    obtain ⟨others, hothers, hmade⟩ := hsame.ensureFile
      (Place.dropLast_path_enter directory file) (Place.path_enter_ne_nil _ _) hensure
    rw [hensure] at h
    rw [hothers]
    dsimp only at h ⊢
    cases hrecover : Recovery.recover made (directory.enter file) with
    | mk outcome recovered =>
      cases outcome with
      | error e => rw [hrecover] at h; cases h
      | ok found =>
        obtain ⟨left, hleft, hagrees⟩ := Recovery.recover_congr hmade hwithin hrecover
        rw [hrecover] at h
        rw [hleft]
        cases h
        exact ⟨left, rfl, hagrees⟩

/-- An index is rebuilt from the log only. -/
theorem Index.rebuild_congr {log : AppendLog} {format : RecordFormat} {replayed : Nat}
    {index : Index} {directory : Path} (hsame : AgreesWithin directory disk other)
    (hwithin : directory <+: log.place.path)
    (h : rebuild log disk format = (.ok replayed, index)) :
    rebuild log other format = (.ok replayed, index) := by
  unfold rebuild AppendLog.scan at h ⊢
  cases hfind : disk.find log.place with
  | error fault => rw [hfind] at h; cases h
  | ok node =>
    rw [hfind] at h
    rw [hsame.find hwithin hfind]
    exact h

/-- An open log is the one at the place where it has been opened. -/
theorem AppendLog.place_of_openAt {place : Place} {policy : SyncPolicy} {log : AppendLog}
    {report : Recovery} (h : openAt disk place policy = (.ok (log, report), after)) :
    log.place = place := by
  unfold openAt at h
  split at h
  · cases h
  · split at h
    · cases h
    · cases h
      rfl

namespace Table

variable {name : String} {policy : SyncPolicy} {table : Table} {cleared : Disk}

/-! ## Opening -/

/-- What it takes for a table to open. -/
theorem openAt_eq_ok_iff :
    openAt disk directory name policy = (.ok table, after) ↔
      ∃ schema format cleared log report replayed index,
        Descriptor.load disk (directory.onward schemaName) name = .ok schema ∧
        RecordFormat.ofSchema schema = .ok format ∧
        removeStale disk directory = .ok cleared ∧
        AppendLog.openAt cleared (logFile directory) policy = (.ok (log, report), after) ∧
        Index.rebuild log after format = (.ok replayed, index) ∧
        table = ⟨schema, format, directory, log, index⟩ := by
  constructor
  · intro h
    unfold openAt at h
    split at h
    · cases h
    · next schema hload =>
      split at h
      · cases h
      · next format hformat =>
        split at h
        · cases h
        · next cleared hcleared =>
          split at h
          · cases h
          · next log report opened hopen =>
            split at h
            · cases h
            · next replayed index hrebuild =>
              cases h
              exact ⟨schema, format, cleared, log, report, replayed, index, hload, hformat,
                hcleared, hopen, hrebuild, rfl⟩
  · rintro ⟨schema, format, cleared, log, report, replayed, index, hload, hformat, hcleared,
      hopen, hrebuild, rfl⟩
    unfold openAt
    rw [hload]
    dsimp only
    rw [hformat]
    dsimp only
    rw [hcleared]
    dsimp only
    rw [hopen]
    dsimp only
    rw [hrebuild]

theorem changesWithin_removeStale (h : removeStale disk directory = .ok cleared) :
    ChangesWithin directory.path disk cleared := by
  unfold removeStale at h
  split at h
  · exact .removeFile (Place.within_enter _ _) h
  · cases h
    exact .refl _ _

/-- **Opening a table changes nothing beside its directory.** -/
theorem changesWithin_openAt (disk : Disk) (directory : Place) (name : String)
    (policy : SyncPolicy) :
    ChangesWithin directory.path disk (openAt disk directory name policy).2 := by
  unfold openAt
  split
  · exact .refl _ _
  · split
    · exact .refl _ _
    · split
      · exact .refl _ _
      · next cleared hcleared =>
        have hopened := (changesWithin_removeStale hcleared).trans
          (AppendLog.changesWithin cleared (Place.within_enter directory "data.log") policy)
        rw [logFile]
        split
        · next hopen => rwa [hopen] at hopened
        · next hopen =>
          rw [hopen] at hopened
          split
          · exact hopened
          · exact hopened

theorem removeStale_congr (hsame : AgreesWithin directory.path disk other)
    (h : removeStale disk directory = .ok cleared) :
    ∃ left, removeStale other directory = .ok left ∧
      AgreesWithin directory.path cleared left := by
  have hwithin : directory.path <+: (compactFile directory).path := Place.within_enter _ _
  unfold removeStale Disk.has at h ⊢
  rw [hsame.get? hwithin]
  split at h
  · next hthere =>
    rw [if_pos hthere]
    exact hsame.removeFile hwithin h (compactFile_ne_nil _)
  · next habsent =>
    cases h
    exact ⟨other, if_neg habsent, hsame⟩

/-- **A table opens as its directory says**, whatever is beside it. -/
theorem openAt_congr (hsame : AgreesWithin directory.path disk other)
    (h : openAt disk directory name policy = (.ok table, after)) :
    ∃ left, openAt other directory name policy = (.ok table, left) ∧
      AgreesWithin directory.path after left := by
  obtain ⟨schema, format, cleared, log, report, replayed, index, hload, hformat, hcleared, hopen,
    hrebuild, rfl⟩ := openAt_eq_ok_iff.mp h
  obtain ⟨unstale, hunstale, hagrees⟩ := removeStale_congr hsame hcleared
  obtain ⟨left, hleft, hopened⟩ := AppendLog.openAt_congr hagrees hopen
  have hwithin : directory.path <+: log.place.path := by
    rw [AppendLog.place_of_openAt hopen]
    exact Place.within_enter _ _
  refine ⟨left, openAt_eq_ok_iff.mpr ⟨schema, format, unstale, log, report, replayed, index,
    load_congr (hsame _ (Place.within_enter _ _)) hload, hformat, hunstale, hleft,
    Index.rebuild_congr hopened hwithin hrebuild, rfl⟩, hopened⟩

/-! ## Creating -/

theorem changesWithin_discard {place : Place} (hwithin : directory.path <+: place.path)
    (h : discard disk place = .ok cleared) : ChangesWithin directory.path disk cleared := by
  unfold discard at h
  split at h
  · next hremove =>
    cases h
    exact .removeFile hwithin hremove
  · cases h
    exact .refl _ _
  · cases h

theorem changesWithin_clearLeftovers (disk : Disk) (directory : Place) :
    ChangesWithin directory.path disk (clearLeftovers disk directory).2 := by
  unfold clearLeftovers
  split
  · exact .refl _ _
  · next hlog =>
    have hfirst := changesWithin_discard (Place.within_enter directory "data.log") hlog
    split
    · exact hfirst
    · next hcopy =>
      exact hfirst.trans (changesWithin_discard (Place.within_enter directory _) hcopy)

/-- The directory itself is one of the paths within it. -/
theorem changesWithin_prepareDirectory (disk : Disk) (directory : Place) (schema : Schema) :
    ChangesWithin directory.path disk (prepareDirectory disk directory schema).2 := by
  have hmade : ChangesWithin directory.path disk (disk.perform [.createDirectory directory]).2 :=
    .perform (by simp [Step.StaysIn]) disk
  unfold prepareDirectory
  split
  · next hperform => rwa [hperform] at hmade
  · next hperform =>
    rw [hperform] at hmade
    split
    · exact hmade
    · have hcleared := hmade.trans (changesWithin_clearLeftovers _ directory)
      split
      · next hclear => rwa [hclear] at hcleared
      · next hclear => rwa [hclear] at hcleared
  · next hperform => rwa [hperform] at hmade

/-- The steps that draft a descriptor and put it in its place are about files of the directory. -/
theorem staysIn_saveSteps {draft place : Place} (hdraft : directory.path <+: draft.path)
    (hplace : directory.path <+: place.path) (bytes : Bytes) :
    ∀ step ∈ Descriptor.saveSteps draft place bytes, step.StaysIn directory.path := by
  intro step hstep
  simp only [Descriptor.saveSteps, Descriptor.draftSteps, List.cons_append, List.nil_append,
    List.mem_cons, List.not_mem_nil, or_false] at hstep
  rcases hstep with rfl | rfl | rfl | rfl
  · exact hdraft
  · exact hdraft
  · exact ⟨hdraft, hplace⟩
  · trivial

theorem staysIn_draftSteps {draft : Place} (hdraft : directory.path <+: draft.path)
    (bytes : Bytes) : ∀ step ∈ Descriptor.draftSteps draft bytes, step.StaysIn directory.path :=
  fun step hstep ↦ staysIn_saveSteps hdraft hdraft bytes step (List.mem_append_left _ hstep)

theorem changesWithin_store (disk : Disk) {draft : Place}
    (hdraft : directory.path <+: draft.path) (bytes : Bytes) :
    ChangesWithin directory.path disk
      (Descriptor.store disk draft (directory.onward schemaName) bytes).2 := by
  have hdrafted := ChangesWithin.perform (staysIn_draftSteps hdraft bytes) disk
  rw [Descriptor.store, locate_descriptor]
  by_cases hlong : textLimit < (schemaFile directory).length
  · rw [if_pos hlong]
    dsimp only
    split
    · next hperform => rwa [hperform] at hdrafted
    · next hperform => rwa [hperform] at hdrafted
  · have hplace : directory.path <+:
        (⟨(schemaFile directory).path, directory.onward schemaName⟩ : Place).path :=
      Place.within_enter directory schemaName
    rw [if_neg hlong]
    exact .perform (staysIn_saveSteps hdraft hplace bytes) disk

theorem changesWithin_save (disk : Disk) (directory : Place) (schema : Schema) :
    ChangesWithin directory.path disk
      (Descriptor.save disk (directory.onward schemaName) schema).2 := by
  unfold Descriptor.save
  split
  · exact .refl _ _
  · split
    · exact .refl _ _
    · next bytes _ =>
      rw [locate_draft]
      by_cases hlong : textLimit < (schemaFile directory).length
      · rw [if_pos hlong]
        exact .refl _ _
      · have hdraft : directory.path <+: (⟨(directory.enter "schema.tmp").path,
            (directory.onward schemaName).withExtension "tmp"⟩ : Place).path :=
          Place.within_enter directory "schema.tmp"
        have hstored := changesWithin_store disk hdraft bytes
        rw [if_neg hlong]
        dsimp only
        split
        · next hstore => rwa [hstore] at hstored
        · next hstore => rwa [hstore] at hstored

theorem changesWithin_furnish (disk : Disk) (directory : Place) (schema : Schema)
    (policy : SyncPolicy) :
    ChangesWithin directory.path disk (furnish disk directory schema policy).2 := by
  unfold furnish
  split
  · exact .refl _ _
  · have hsaved := changesWithin_save disk directory schema
    split
    · next hsave => rwa [hsave] at hsaved
    · next saved hsave =>
      rw [hsave] at hsaved
      have hopened := hsaved.trans
        (AppendLog.changesWithin saved (Place.within_enter directory "data.log") policy)
      rw [logFile]
      split
      · next hopen => rwa [hopen] at hopened
      · next hopen => rwa [hopen] at hopened

end Table

end TableStore

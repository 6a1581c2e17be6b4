import TableStore.Proofs.Engine.Opening

/-!
# Creations that fail

A creation that fails leaves the engine as it was, and everything beside the directory of its table.
In that directory it can take something away in one case only: if the directory was there already,
and had no descriptor. Such a directory is taken over. When a later step fails all that is in it is
removed, whoever has put it there.
-/

namespace TableStore

/-! ## Removing a directory -/

namespace Disk

variable {disk : Disk} {route : Route} {place : Place}

/-- **Removing a directory empties it**, and takes nothing away beside it. -/
theorem node?_removeTreeAt (hpath : place.path ≠ []) (hlocate : disk.locate route = .ok place)
    (hdirectory : disk.get? place = some .directory) :
    (∀ path, ¬ place.path <+: path →
        (disk.removeTreeAt route).2.node? path = disk.node? path) ∧
      ∀ path, place.path <+: path → path ≠ place.path →
        (disk.removeTreeAt route).2.node? path = none := by
  have hbeside : ∀ path, ¬ place.path <+: path →
      (disk.eraseBelow place.path).node? path = disk.node? path := by
    intro path hbeside
    rw [node?_eraseBelow, if_neg fun hbelow ↦ hbeside hbelow.1]
  have hbelow : ∀ path, place.path <+: path → path ≠ place.path →
      (disk.eraseBelow place.path).node? path = none := by
    intro path hwithin hne
    rw [node?_eraseBelow, if_pos ⟨hwithin, hne⟩]
  -- What leads anywhere on the emptied disk led there before.
  have hsame : ∀ again, (disk.eraseBelow place.path).locate route = .ok again → again = place := by
    intro again hagain
    have hdirectories : ∀ path, (disk.eraseBelow place.path).node? path = some .directory →
        disk.node? path = some .directory := by
      intro path hthere
      rw [node?_eraseBelow] at hthere
      split at hthere
      · cases hthere
      · exact hthere
    have hold := locate_of_directories hdirectories hagain
    rw [hlocate] at hold
    exact (Except.ok.inj hold).symm
  rw [removeTreeAt, hlocate]
  dsimp only
  rw [find_of_get? hdirectory]
  dsimp only
  split
  · exact ⟨hbeside, hbelow⟩
  · exact ⟨hbeside, hbelow⟩
  · next again hagain =>
    obtain rfl := hsame again hagain
    split
    · exact ⟨hbeside, hbelow⟩
    · constructor
      · intro path hout
        rw [node?_erase hpath, if_neg, hbeside path hout]
        rintro rfl
        exact hout List.prefix_rfl
      · intro path hwithin hne
        rw [node?_erase hpath, if_neg hne.symm, hbelow path hwithin hne]

end Disk

namespace Table

variable {disk left : Disk} {root directory : Place} {schema : Schema} {e : Failure}
  {fault : FileFault} {node : Node}

/-! ## Taking over a directory -/

/-- Whether a creation takes over what it finds: a directory without a descriptor. -/
structure IsTakenOver (disk : Disk) (directory : Place) : Prop where
  isDirectory : disk.get? directory = some .directory
  undescribed : disk.has (schemaFile directory) = false

/-- What a creation that has failed has taken away. -/
inductive Loss (disk : Disk) (directory : Place) (left : Disk) : Prop where
  | nothing (same : ∀ path, left.node? path = disk.node? path)
  /-- The log in a directory that has been taken over, but what is left of a compaction could not
  be removed. -/
  | log (taken : IsTakenOver disk directory)
      (directories : ∀ path, disk.node? path = some .directory → left.node? path = some .directory)
      (same : ∀ path, path ≠ (logFile directory).path → left.node? path = disk.node? path)
  /-- All that was in a directory that has been taken over. -/
  | everything (taken : IsTakenOver disk directory)
      (beside : ∀ path, ¬ directory.path <+: path → left.node? path = disk.node? path)
      (gone : ∀ path, directory.path <+: path → path ≠ directory.path → left.node? path = none)

/-- Below what is not a directory no leftovers can be looked for. -/
theorem clearLeftovers_of_file (htree : disk.IsTree)
    (hroot : disk.node? root.path = some .directory) {name : String}
    (hnode : disk.node? (root.enter name).path = some node) (hfile : node ≠ .directory) :
    ∃ fault, clearLeftovers disk (root.enter name) = (.error fault, disk) := by
  have hnone : disk.get? (logFile (root.enter name)) = none := by
    apply Disk.get?_of_node?_eq_none
    apply htree.node?_enter
    rw [hnode]
    exact fun heq ↦ hfile (Option.some.inj heq)
  have habsence : disk.absence [] (logFile (root.enter name)).path = .notADirectory :=
    (htree.isReached hroot).absence_of_file hnode hfile ["data.log"]
  rw [clearLeftovers, discard, Disk.removeFile, Disk.find, hnone, habsence]
  by_cases hlong : Disk.textLimit < (logFile (root.enter name)).length
  · rw [if_pos hlong]
    exact ⟨_, rfl⟩
  · rw [if_neg hlong]
    exact ⟨_, rfl⟩

/-- When leftovers cannot be cleared only the log may be gone. -/
theorem of_clearLeftovers_eq_error (h : clearLeftovers disk directory = (.error fault, left)) :
    ∀ path, path ≠ (logFile directory).path → left.node? path = disk.node? path := by
  unfold clearLeftovers at h
  split at h
  · cases h
    exact fun _ _ ↦ rfl
  · next hlog =>
    obtain ⟨_, hothers⟩ := of_discard_eq_ok (logFile_ne_nil directory) hlog
    split at h
    · cases h
      exact hothers
    · cases h

/-- What a creation finds where something stands: its leftovers are cleared if it is a directory
without a descriptor, and otherwise nothing is done. -/
theorem prepareDirectory_of_some (htree : disk.IsTree)
    (hroot : disk.node? root.path = some .directory) {name : String}
    (hnode : disk.node? (root.enter name).path = some node) (schema : Schema) :
    (∃ e, prepareDirectory disk (root.enter name) schema = (.error e, disk)) ∨
      IsTakenOver disk (root.enter name) ∧
        prepareDirectory disk (root.enter name) schema =
          match clearLeftovers disk (root.enter name) with
          | (.error fault, disk) => (.error (.file fault), disk)
          | (.ok (), disk) => (.ok (), disk) := by
  rw [prepareDirectory, Disk.perform, Disk.Step.apply, Disk.createDirectory_of_some hnode]
  by_cases hlong : Disk.textLimit < (root.enter name).length
  · rw [if_pos hlong]
    exact .inl ⟨_, rfl⟩
  · have hget : disk.get? (root.enter name) = some node :=
      Disk.get?_eq_some_iff.mpr ⟨Nat.not_lt.mp hlong, hnode⟩
    rw [if_neg hlong]
    dsimp only
    cases hdescribed : disk.has (schemaFile (root.enter name)) with
    | true =>
      rw [if_pos rfl]
      exact .inl ⟨_, rfl⟩
    | false =>
      rw [if_neg Bool.false_ne_true]
      by_cases hfile : node = .directory
      · exact .inr ⟨⟨hfile ▸ hget, hdescribed⟩, rfl⟩
      · obtain ⟨fault, hclear⟩ := clearLeftovers_of_file htree hroot hnode hfile
        rw [hclear]
        exact .inl ⟨_, rfl⟩

section Creation

variable {policy : SyncPolicy} {route : Route} (hlocate : disk.locate route = .ok root)
  (hroot : disk.node? root.path = some .directory) (hvalid : schema.validate = .ok ())

include hlocate hroot hvalid in
/-- A creation that has taken over a directory and fails later leaves nothing in it. -/
theorem loss_of_isTakenOver (htaken : IsTakenOver disk (root.enter schema.name))
    (hprepare : prepareDirectory disk (root.enter schema.name) schema =
      match clearLeftovers disk (root.enter schema.name) with
      | (.error fault, disk) => (.error (.file fault), disk)
      | (.ok (), disk) => (.ok (), disk))
    (h : create disk (root.enter schema.name) schema policy = (.error e, left)) :
    Loss disk (root.enter schema.name) left := by
  have hcleared := changesWithin_clearLeftovers disk (root.enter schema.name)
  rw [create, hvalid] at h
  dsimp only at h
  rw [hprepare] at h
  cases hclear : clearLeftovers disk (root.enter schema.name) with
  | mk outcome cleared =>
    rw [hclear] at h hcleared
    cases outcome with
    | error fault =>
      cases h
      exact .log htaken hcleared.directories (of_clearLeftovers_eq_error hclear)
    | ok _ =>
      have hfurnished := hcleared.trans
        (changesWithin_furnish cleared (root.enter schema.name) schema policy)
      dsimp only at h
      cases hfurnish : furnish cleared (root.enter schema.name) schema policy with
      | mk outcome furnished =>
        rw [hfurnish] at h hfurnished
        cases outcome with
        | ok table => cases h
        | error e =>
          cases h
          obtain ⟨hlength, hdirectory⟩ := Disk.get?_eq_some_iff.mp htaken.isDirectory
          obtain ⟨hbeside, hgone⟩ := Disk.node?_removeTreeAt
            (Place.path_enter_ne_nil root schema.name)
            (locate_of_directories hlocate hroot hvalid hfurnished.directories hlength)
            (Disk.get?_eq_some_iff.mpr ⟨hlength, hfurnished.directories _ hdirectory⟩)
          exact .everything htaken
            (fun path hout ↦ (hbeside path hout).trans (hfurnished.beside path hout)) hgone

include hlocate hroot hvalid in
/-- **What a creation that fails takes away.** -/
theorem loss_of_create_eq_error (htree : disk.IsTree)
    (h : create disk (root.enter schema.name) schema policy = (.error e, left)) :
    Loss disk (root.enter schema.name) left := by
  cases hnode : disk.node? (root.enter schema.name).path with
  | none =>
    have hvacant : ∀ path, (root.enter schema.name).path <+: path → disk.node? path = none :=
      fun _ hwithin ↦ htree.node?_eq_none hnode hwithin
    by_cases hlong : Disk.nameLimit < schema.name.utf8ByteSize ∨
        Disk.textLimit < (schemaFile (root.enter schema.name)).length
    · obtain ⟨_, hcreate, hsame⟩ := create_of_long hlocate hroot hvacant hvalid hlong policy
      rw [hcreate] at h
      cases h
      exact .nothing hsame
    · obtain ⟨hname, hlength⟩ := not_or.mp hlong
      obtain ⟨_, _, hcreate, _⟩ := create_of_short hroot hvacant hvalid (Nat.not_lt.mp hname)
        (Nat.not_lt.mp hlength) policy
      rw [hcreate] at h
      cases h
  | some node =>
    rcases prepareDirectory_of_some htree hroot hnode schema with
      ⟨e, hprepare⟩ | ⟨htaken, hprepare⟩
    · rw [create, hvalid, hprepare] at h
      cases h
      exact .nothing fun _ ↦ rfl
    · exact loss_of_isTakenOver hlocate hroot hvalid htaken hprepare h

end Creation

end Table

/-! ## In an engine -/

namespace Engine

variable {engine after : Engine} {disk left : Disk} {schema : Schema} {e : Failure}

/-- **A creation that fails leaves the engine as it was**, and takes nothing away but from a
directory that it has taken over. -/
theorem loss_of_createTable_eq_error (htree : disk.IsTree)
    (hlocate : disk.locate engine.root.route = .ok engine.root)
    (hroot : disk.node? engine.root.path = some .directory)
    (h : engine.createTable disk schema = (.error e, after, left)) :
    after = engine ∧ Table.Loss disk (engine.root.enter schema.name) left := by
  unfold createTable at h
  split at h
  · cases h
    exact ⟨rfl, .nothing fun _ ↦ rfl⟩
  · next hvalid =>
    split at h
    · cases h
      exact ⟨rfl, .nothing fun _ ↦ rfl⟩
    · dsimp only at h
      split at h
      · next hcreate =>
        cases h
        exact ⟨rfl, Table.loss_of_create_eq_error hlocate hroot hvalid htree hcreate⟩
      · cases h

/-- The steps to a data directory with a directory for orders in it. There is a file of somebody in
this directory, and a directory where the draft of the descriptor would be. -/
def bystanderSteps : List Disk.Step :=
  [.createDirectory ⟨["data"], ⟨[], 0, ["data"]⟩⟩,
    .createDirectory ⟨["data", "orders"], ⟨[], 0, ["data", "orders"]⟩⟩,
    .createDirectory ⟨["data", "orders", "schema.tmp"], ⟨[], 0, ["data", "orders", "schema.tmp"]⟩⟩,
    .createFile ⟨["data", "orders", "keep"], ⟨[], 0, ["data", "orders", "keep"]⟩⟩]

def bystanderDisk : Disk :=
  (Disk.empty.perform bystanderSteps).2

/-- It is the engine that opens over this directory. -/
theorem openAt_bystander :
    openAt bystanderDisk [] vacantEngine.config = (.ok vacantEngine, bystanderDisk) := by
  have hroot : locateRoot bystanderDisk (Route.ofText [] vacantEngine.config.dataDirectory) =
      .ok vacantEngine.root := by
    decide +kernel
  have hnames : tableNames bystanderDisk vacantEngine.root = [] := by decide +kernel
  exact openAt_of_tableNames_eq_nil hroot hnames

/-- The creation that fails because of the directory at the name of the draft. -/
theorem loss_of_createTable_eq_error_bystander :
    bystanderDisk.IsTree ∧
      bystanderDisk.locate vacantEngine.root.route = .ok vacantEngine.root ∧
      bystanderDisk.node? vacantEngine.root.path = some .directory ∧
      ∃ after left, vacantEngine.createTable bystanderDisk RecordFormat.ordersSchema =
          (.error (.file .isADirectory), after, left) ∧
        after = vacantEngine ∧
        Table.Loss bystanderDisk (vacantEngine.root.enter "orders") left := by
  have htree : bystanderDisk.IsTree := Disk.isTree_empty.perform bystanderSteps
  have hlocate : bystanderDisk.locate vacantEngine.root.route = .ok vacantEngine.root := by
    decide +kernel
  have hroot : bystanderDisk.node? vacantEngine.root.path = some .directory := by
    decide +kernel
  have hfails : (match vacantEngine.createTable bystanderDisk RecordFormat.ordersSchema with
      | (.error (.file .isADirectory), _, _) => true
      | _ => false) = true := by
    decide +kernel
  split at hfails
  · next after left hcreate =>
    obtain ⟨hsame, hloss⟩ := loss_of_createTable_eq_error htree hlocate hroot hcreate
    exact ⟨htree, hlocate, hroot, after, left, hcreate, hsame, hloss⟩
  · cases hfails

/-- **A creation that fails can take away what it has not made**: the file of the bystander, in an
engine that has just been opened. -/
theorem createTable_removes_bystander :
    openAt bystanderDisk [] vacantEngine.config = (.ok vacantEngine, bystanderDisk) ∧
      (vacantEngine.createTable bystanderDisk RecordFormat.ordersSchema).1 =
        .error (.file .isADirectory) ∧
      bystanderDisk.has (Table.schemaFile (vacantEngine.root.enter "orders")) = false ∧
      bystanderDisk.node? ["data", "orders", "keep"] = some (.file []) ∧
      (vacantEngine.createTable bystanderDisk RecordFormat.ordersSchema).2.2.node?
        ["data", "orders", "keep"] = none := by
  refine ⟨openAt_bystander, ?_⟩
  decide +kernel

end Engine

end TableStore

import TableStore.Disk.Locate
import TableStore.Disk.Step

/-!
# What stands on a disk after a change

Every operation that succeeds puts one node somewhere or takes one away, and leaves all other
paths as they are.
-/

namespace TableStore

namespace Place

/-! ## Places in a directory -/

variable {directory : Place}

theorem path_enter (directory : Place) (name : String) :
    (directory.enter name).path = directory.path ++ [name] := rfl

theorem path_enter_ne_nil (directory : Place) (name : String) :
    (directory.enter name).path ≠ [] := by
  rw [path_enter]
  exact List.append_ne_nil_of_right_ne_nil _ (List.cons_ne_nil _ _)

theorem path_enter_inj {name other : String} :
    (directory.enter name).path = (directory.enter other).path ↔ name = other := by
  rw [path_enter, path_enter, List.append_cancel_left_eq, List.cons.injEq, and_iff_left rfl]

theorem path_enter_ne_self (directory : Place) (name : String) :
    (directory.enter name).path ≠ directory.path := by
  intro heq
  have hlength := congrArg List.length heq
  rw [path_enter, List.length_append, List.length_singleton] at hlength
  omega

theorem dropLast_path_enter (directory : Place) (name : String) :
    (directory.enter name).path.dropLast = directory.path := by
  rw [path_enter, List.dropLast_concat]

end Place

namespace Disk

variable {disk other : Disk} {place : Place} {path : Path} {node : Node} {content : Bytes}

/-! ## Nodes -/

/-- Whether there is no more than a regular file at a path. -/
def IsFileAtMost (disk : Disk) (path : Path) : Prop :=
  disk.node? path = none ∨ ∃ content, disk.node? path = some (.file content)

theorem IsFileAtMost.congr (h : disk.IsFileAtMost path)
    (hsame : other.node? path = disk.node? path) : other.IsFileAtMost path := by
  rw [IsFileAtMost, hsame]
  exact h

theorem node?_empty (h : path ≠ []) : empty.node? path = none := by
  simp [node?, h, empty]

theorem node?_set (h : path ≠ []) (disk : Disk) (node : Node) (asked : Path) :
    (disk.set path node).node? asked = if path = asked then some node else disk.node? asked := by
  unfold node? set
  by_cases hasked : asked = []
  · subst hasked
    rw [if_neg h]
    rfl
  · have hempty : asked.isEmpty = false := by simpa using hasked
    simp only [hempty, Bool.false_eq_true, if_false, Std.ExtTreeMap.getElem?_insert,
      Std.compare_eq_iff_eq]

theorem node?_erase (h : path ≠ []) (disk : Disk) (asked : Path) :
    (disk.erase path).node? asked = if path = asked then none else disk.node? asked := by
  unfold node? erase
  by_cases hasked : asked = []
  · subst hasked
    rw [if_neg h]
    rfl
  · have hempty : asked.isEmpty = false := by simpa using hasked
    simp only [hempty, Bool.false_eq_true, if_false, Std.ExtTreeMap.getElem?_erase,
      Std.compare_eq_iff_eq]

/-- Putting a node where it stands already changes nothing. -/
theorem set_self (hpath : path ≠ []) (h : disk.node? path = some node) :
    disk.set path node = disk := by
  obtain ⟨nodes⟩ := disk
  have hnode : nodes[path]? = some node := by simpa [node?, hpath] using h
  rw [set, Disk.mk.injEq]
  apply Std.ExtTreeMap.ext_getElem?
  intro asked
  rw [Std.ExtTreeMap.getElem?_insert]
  split
  · next heq => rw [← Std.compare_eq_iff_eq.mp heq, hnode]
  · rfl

/-- Of two nodes put at a path the second one stays. -/
theorem set_set (disk : Disk) (path : Path) (first second : Node) :
    (disk.set path first).set path second = disk.set path second := by
  rw [set, set, set, Disk.mk.injEq]
  apply Std.ExtTreeMap.ext_getElem?
  intro asked
  simp only [Std.ExtTreeMap.getElem?_insert]
  split <;> rfl

/-- A node put where there was none and taken away again leaves no trace. -/
theorem erase_set (hpath : path ≠ []) (h : disk.node? path = none) (node : Node) :
    (disk.set path node).erase path = disk := by
  obtain ⟨nodes⟩ := disk
  have hnone : nodes[path]? = none := by simpa [node?, hpath] using h
  rw [set, erase, Disk.mk.injEq]
  apply Std.ExtTreeMap.ext_getElem?
  intro asked
  rw [Std.ExtTreeMap.getElem?_erase]
  split
  · next heq => rw [← Std.compare_eq_iff_eq.mp heq, hnone]
  · next hne => rw [Std.ExtTreeMap.getElem?_insert, if_neg hne]

/-- What is at a place depends on the node at its path. -/
theorem get?_congr (h : other.node? place.path = disk.node? place.path) :
    other.get? place = disk.get? place := by
  rw [get?, get?, h]

theorem get?_eq_some_iff :
    disk.get? place = some node ↔ place.length ≤ textLimit ∧ disk.node? place.path = some node := by
  rw [get?]
  split
  · next hlong => simp [Nat.not_le.mpr hlong]
  · next hfits => simp [Nat.not_lt.mp hfits]

/-- The root is not a file. -/
theorem path_ne_nil_of_file (h : disk.get? place = some (.file content)) : place.path ≠ [] := by
  intro hroot
  obtain ⟨_, hfile⟩ := get?_eq_some_iff.mp h
  rw [hroot] at hfile
  cases hfile

/-- The root is never missing. -/
theorem path_ne_nil_of_none (h : disk.get? place = none) (hfits : place.length ≤ textLimit) :
    place.path ≠ [] := by
  intro hroot
  rw [get?, if_neg (Nat.not_lt.mpr hfits), hroot] at h
  cases h

/-- A node put at a place is found there. -/
theorem get?_set_self (hpath : place.path ≠ []) (hfits : place.length ≤ textLimit) (disk : Disk)
    (node : Node) : (disk.set place.path node).get? place = some node := by
  rw [get?_eq_some_iff, node?_set hpath, if_pos rfl]
  exact ⟨hfits, rfl⟩

/-- A node put in the place of a file is found there. -/
theorem get?_set_of_file (h : disk.get? place = some (.file content)) (node : Node) :
    (disk.set place.path node).get? place = some node :=
  get?_set_self (path_ne_nil_of_file h) (get?_eq_some_iff.mp h).1 disk node

/-- A node put elsewhere is of no concern. -/
theorem get?_set_of_ne (hpath : path ≠ []) (hne : path ≠ place.path) (disk : Disk) (node : Node) :
    (disk.set path node).get? place = disk.get? place := by
  apply get?_congr
  rw [node?_set hpath, if_neg hne]

theorem get?_of_node?_eq_none (h : disk.node? place.path = none) : disk.get? place = none := by
  rw [get?, h]
  split <;> rfl

theorem find_of_get? (h : disk.get? place = some node) : disk.find place = .ok node := by
  rw [find, h]

/-! ## Changes -/

theorem modifyFile_of_file (h : disk.get? place = some (.file content)) (change : Bytes → Bytes) :
    disk.modifyFile place change = .ok (disk.set place.path (.file (change content))) := by
  rw [modifyFile, find_of_get? h]

theorem ensureFile_of_file (h : disk.get? place = some (.file content)) :
    disk.ensureFile place = .ok disk := by
  rw [ensureFile, h]

theorem ensureFile_of_none (h : disk.get? place = none) :
    disk.ensureFile place =
      match disk.entryFault? place with
      | some fault => .error fault
      | none => .ok (disk.set place.path (.file [])) := by
  cases hfault : disk.entryFault? place with
  | some fault => simp only [ensureFile, h, hfault]
  | none => simp only [ensureFile, h, hfault]

/-- An entry can be made only in a directory, under a text that is not too long. -/
theorem of_entryFault?_eq_none (h : disk.entryFault? place = none) :
    place.length ≤ textLimit ∧ disk.node? place.path.dropLast = some .directory := by
  unfold entryFault? at h
  split at h
  · cases h
  · next hfits =>
    split at h
    · next hparent => exact ⟨Nat.not_lt.mp hfits, hparent⟩
    · cases h
    · cases h

/-- In a directory an entry can be made unless its text or its name is too long. -/
theorem entryFault?_of_directory (h : disk.node? place.path.dropLast = some .directory) :
    disk.entryFault? place =
      if textLimit < place.length ∨ nameLimit < (place.path.getLastD "").utf8ByteSize then
        some .nameTooLong
      else none := by
  rw [entryFault?, h]
  by_cases hlong : textLimit < place.length
  · rw [if_pos hlong, if_pos (.inl hlong)]
  · simp only [hlong, if_false, false_or]

/-- An entry can still be made when something else has been put on the disk. -/
theorem entryFault?_set_of_ne (hpath : path ≠ []) (hne : path ≠ place.path.dropLast)
    (h : disk.entryFault? place = none) (node : Node) :
    (disk.set path node).entryFault? place = none := by
  have hparent := (of_entryFault?_eq_none h).2
  have hthere : (disk.set path node).node? place.path.dropLast = some .directory := by
    rw [node?_set hpath, if_neg hne, hparent]
  rw [entryFault?_of_directory hthere, ← entryFault?_of_directory hparent, h]

theorem createDirectory_of_none (h : disk.get? place = none) :
    disk.createDirectory place =
      match disk.entryFault? place with
      | some fault => .error fault
      | none => .ok (disk.set place.path .directory) := by
  have habsent : ¬ disk.has place = true := by simp [has, h]
  cases hfault : disk.entryFault? place with
  | some fault => simp only [createDirectory, habsent, hfault, Bool.false_eq_true, if_false]
  | none => simp only [createDirectory, habsent, hfault, Bool.false_eq_true, if_false]

/-- Where something stands no directory is made. -/
theorem createDirectory_of_some (h : disk.node? place.path = some node) :
    disk.createDirectory place =
      if textLimit < place.length then .error .nameTooLong else .error .alreadyExists := by
  by_cases hlong : textLimit < place.length
  · have habsent : disk.get? place = none := by rw [get?, if_pos hlong]
    rw [createDirectory_of_none habsent, entryFault?, if_pos hlong, if_pos hlong]
  · have hget := get?_eq_some_iff.mpr ⟨Nat.not_lt.mp hlong, h⟩
    rw [if_neg hlong, createDirectory, has, hget]
    rfl

/-- A directory is made in a directory where there is nothing. -/
theorem of_createDirectory_eq_ok (h : disk.createDirectory place = .ok other) :
    disk.node? place.path = none ∧ disk.node? place.path.dropLast = some .directory ∧
      other = disk.set place.path .directory := by
  unfold createDirectory at h
  split at h
  · cases h
  · next habsent =>
    cases hfault : disk.entryFault? place with
    | some fault => rw [hfault] at h; cases h
    | none =>
      rw [hfault] at h
      cases h
      obtain ⟨hfits, hparent⟩ := of_entryFault?_eq_none hfault
      have hnone : disk.get? place = none := by simpa [has] using habsent
      rw [get?, if_neg (Nat.not_lt.mpr hfits)] at hnone
      exact ⟨hnone, hparent, rfl⟩

/-- A file just made is empty, and nothing else has changed. -/
theorem of_createFile_eq_ok (hpath : place.path ≠ []) (h : disk.createFile place = .ok other) :
    other = disk.set place.path (.file []) ∧ other.get? place = some (.file []) := by
  have hthere : ∀ content : Bytes, disk.get? place = some (.file content) →
      other = disk.set place.path (.file []) ∧ other.get? place = some (.file []) := by
    intro content hfile
    rw [createFile, ensureFile_of_file hfile] at h
    dsimp only at h
    rw [modifyFile_of_file hfile] at h
    cases h
    exact ⟨rfl, get?_set_of_file hfile _⟩
  cases hget : disk.get? place with
  | none =>
    rw [createFile, ensureFile_of_none hget] at h
    cases hfault : disk.entryFault? place with
    | some fault => rw [hfault] at h; cases h
    | none =>
      have hnew := get?_set_self hpath (of_entryFault?_eq_none hfault).1 disk (.file [])
      rw [hfault] at h
      dsimp only at h
      rw [modifyFile_of_file hnew, set_set] at h
      cases h
      exact ⟨rfl, hnew⟩
  | some found =>
    cases found with
    | file content => exact hthere content hget
    | directory => rw [createFile, ensureFile, hget] at h; cases h
    | fullDevice =>
      rw [createFile, ensureFile, hget] at h
      dsimp only at h
      rw [modifyFile, find_of_get? hget] at h
      cases h

/-- Where there is nothing, a file can be made unless no entry can be. -/
theorem createFile_of_none (hpath : place.path ≠ []) (h : disk.get? place = none) :
    disk.createFile place =
      match disk.entryFault? place with
      | some fault => .error fault
      | none => .ok (disk.set place.path (.file [])) := by
  rw [createFile, ensureFile_of_none h]
  cases hfault : disk.entryFault? place with
  | some fault => rfl
  | none =>
    have hmade := get?_set_self hpath (of_entryFault?_eq_none hfault).1 disk (.file [])
    dsimp only
    rw [modifyFile_of_file hmade, set_set]

/-- A file that has been renamed stands at its target only. -/
theorem of_rename_eq_ok {source target : Place} (hsource : disk.get? source = some node)
    (h : disk.rename source target = .ok other) :
    other = (disk.erase source.path).set target.path node := by
  unfold rename at h
  rw [find_of_get? hsource] at h
  split at h
  · cases h
  · cases h
  · next hfound =>
    cases hfound
    split at h
    · cases h
    · cases h
      rfl
    · split at h
      · cases h
      · cases h
        rfl

/-- A file can be put in the place of another one. -/
theorem rename_of_files {source target : Place} {replaced : Bytes}
    (hsource : disk.get? source = some (.file content))
    (htarget : disk.get? target = some (.file replaced)) :
    disk.rename source target =
      .ok ((disk.erase source.path).set target.path (.file content)) := by
  rw [rename, find_of_get? hsource, htarget]

/-- A file can be put where an entry can be made. -/
theorem rename_of_none {source target : Place} (hsource : disk.get? source = some (.file content))
    (htarget : disk.get? target = none) (hfault : disk.entryFault? target = none) :
    disk.rename source target =
      .ok ((disk.erase source.path).set target.path (.file content)) := by
  rw [rename, find_of_get? hsource, htarget, hfault]

/-- A flush that succeeds leaves the disk as it is. -/
theorem of_flush_eq_ok {route : Route} (h : (Step.flush route).apply disk = .ok other) :
    disk.flushAt route = .ok () ∧ other = disk := by
  rw [Step.apply] at h
  cases hflush : disk.flushAt route with
  | error fault =>
    rw [hflush] at h
    cases h
  | ok _ =>
    rw [hflush] at h
    cases h
    exact ⟨rfl, rfl⟩

/-- A file that has been removed is gone, and nothing else is. -/
theorem of_removeFile_eq_ok (h : disk.removeFile place = .ok other) :
    other = disk.erase place.path := by
  unfold removeFile at h
  split at h
  · cases h
  · cases h
  · cases h
    rfl

/-- A file that cannot be removed because it is not there is not there. -/
theorem get?_of_removeFile_notFound (h : disk.removeFile place = .error .notFound) :
    disk.get? place = none := by
  cases hget : disk.get? place with
  | none => rfl
  | some node =>
    rw [removeFile, find_of_get? hget] at h
    cases node <;> cases h

/-! ## Names reached from a directory -/

theorem follow_name {name : String} (hstill : Route.isStill name = false) (hback : name ≠ "..")
    (disk : Disk) (start : Path) : disk.follow start [name] = .ok (start ++ [name]) := by
  simp only [follow, hstill, Bool.false_eq_true, if_false, hback, List.isEmpty_nil, if_true]

/-- A route of one name leads to that name, whatever is on the disk. -/
theorem locate_name {name : String} (hstill : Route.isStill name = false) (hback : name ≠ "..")
    (disk : Disk) (start : Path) (lead : Nat) :
    disk.locate ⟨start, lead, [name]⟩ =
      match routeFault? ⟨start, lead, [name]⟩ with
      | some fault => .error fault
      | none => .ok ⟨start ++ [name], ⟨start, lead, [name]⟩⟩ := by
  cases hfault : routeFault? ⟨start, lead, [name]⟩ with
  | some fault => simp only [locate, hfault]
  | none => simp only [locate, hfault, follow_name hstill hback]

theorem length_le_of_routeFault? {route : Route} (h : routeFault? route = none) :
    route.length ≤ textLimit := by
  unfold routeFault? at h
  split at h
  · cases h
  · split at h
    · cases h
    · next hfits => exact Nat.not_lt.mp hfits

end Disk

end TableStore

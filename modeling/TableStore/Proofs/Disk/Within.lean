import TableStore.Proofs.Disk.Locate
import TableStore.Proofs.Disk.Tree

/-!
# Changes within a directory

What is done with the files of a directory changes nothing beside it, and depends on nothing beside
it. No directory goes when files come and go, so that every route leads where it led.
-/

namespace TableStore.Disk

variable {disk other left after : Disk} {directory path : Path} {place : Place} {node : Node}

/-! ## Beside the directory -/

/-- Whether a change is one within a directory in which no directory has gone. -/
structure ChangesWithin (directory : Path) (disk left : Disk) : Prop where
  beside : ∀ path, ¬ directory <+: path → left.node? path = disk.node? path
  directories : ∀ path, disk.node? path = some .directory → left.node? path = some .directory

/-- Where there is no directory is not the root. -/
theorem ne_nil_of_node? (h : disk.node? path ≠ some .directory) : path ≠ [] := by
  rintro rfl
  exact h rfl

/-- An entry is made where nothing stands. -/
theorem node?_of_entryFault? (habsent : disk.get? place = none)
    (hfault : disk.entryFault? place = none) : disk.node? place.path = none := by
  rwa [get?, if_neg (Nat.not_lt.mpr (of_entryFault?_eq_none hfault).1)] at habsent

namespace ChangesWithin

theorem refl (directory : Path) (disk : Disk) : ChangesWithin directory disk disk :=
  ⟨fun _ _ ↦ rfl, fun _ h ↦ h⟩

theorem trans (hfirst : ChangesWithin directory disk after)
    (hsecond : ChangesWithin directory after left) : ChangesWithin directory disk left where
  beside path hbeside := (hsecond.beside path hbeside).trans (hfirst.beside path hbeside)
  directories path hdirectory := hsecond.directories path (hfirst.directories path hdirectory)

/-- A node is put in the place of a file, or where nothing stands. -/
theorem set (hwithin : directory <+: path) (hfree : disk.node? path ≠ some .directory)
    (node : Node) : ChangesWithin directory disk (disk.set path node) where
  beside := by
    intro asked hbeside
    rw [node?_set (ne_nil_of_node? hfree), if_neg]
    rintro rfl
    exact hbeside hwithin
  directories := by
    intro asked hdirectory
    rw [node?_set (ne_nil_of_node? hfree), if_neg, hdirectory]
    rintro rfl
    exact hfree hdirectory

theorem erase (hwithin : directory <+: path) (hfree : disk.node? path ≠ some .directory) :
    ChangesWithin directory disk (disk.erase path) where
  beside := by
    intro asked hbeside
    rw [node?_erase (ne_nil_of_node? hfree), if_neg]
    rintro rfl
    exact hbeside hwithin
  directories := by
    intro asked hdirectory
    rw [node?_erase (ne_nil_of_node? hfree), if_neg, hdirectory]
    rintro rfl
    exact hfree hdirectory

/-! ### Operations -/

variable (hwithin : directory <+: place.path)

include hwithin

/-- A node is put where an entry can be made. -/
theorem entry (habsent : disk.get? place = none) (hfault : disk.entryFault? place = none)
    (node : Node) : ChangesWithin directory disk (disk.set place.path node) := by
  apply set hwithin
  rw [node?_of_entryFault? habsent hfault]
  exact nofun

theorem createDirectory (h : disk.createDirectory place = .ok left) :
    ChangesWithin directory disk left := by
  obtain ⟨hnone, _, rfl⟩ := of_createDirectory_eq_ok h
  apply set hwithin
  rw [hnone]
  exact nofun

theorem ensureFile (h : disk.ensureFile place = .ok left) : ChangesWithin directory disk left := by
  cases hget : disk.get? place with
  | none =>
    rw [ensureFile_of_none hget] at h
    cases hfault : disk.entryFault? place with
    | some fault => rw [hfault] at h; cases h
    | none =>
      rw [hfault] at h
      cases h
      exact entry hwithin hget hfault _
  | some node =>
    rw [Disk.ensureFile, hget] at h
    cases node with
    | directory => cases h
    | file content => cases h; exact refl _ _
    | fullDevice => cases h; exact refl _ _

theorem modifyFile {change : Bytes → Bytes} (h : disk.modifyFile place change = .ok left) :
    ChangesWithin directory disk left := by
  unfold Disk.modifyFile at h
  cases hget : disk.get? place with
  | none => simp only [find, hget] at h; cases h
  | some node =>
    rw [find_of_get? hget] at h
    cases node with
    | directory => cases h
    | fullDevice => cases h
    | file content =>
      cases h
      apply set hwithin
      rw [(get?_eq_some_iff.mp hget).2]
      simp

theorem createFile (h : disk.createFile place = .ok left) : ChangesWithin directory disk left := by
  unfold Disk.createFile at h
  cases hensure : disk.ensureFile place with
  | error fault => rw [hensure] at h; cases h
  | ok made =>
    rw [hensure] at h
    exact (ensureFile hwithin hensure).trans (modifyFile hwithin h)

theorem removeFile (h : disk.removeFile place = .ok left) : ChangesWithin directory disk left := by
  unfold Disk.removeFile at h
  cases hget : disk.get? place with
  | none => simp only [find, hget] at h; cases h
  | some node =>
    rw [find_of_get? hget] at h
    have hnode := (get?_eq_some_iff.mp hget).2
    cases node with
    | directory => cases h
    | file content => cases h; exact erase hwithin (by simp [hnode])
    | fullDevice => cases h; exact erase hwithin (by simp [hnode])

omit hwithin

theorem rename {source target : Place} (hsource : directory <+: source.path)
    (htarget : directory <+: target.path) (h : disk.rename source target = .ok left) :
    ChangesWithin directory disk left := by
  cases hget : disk.get? source with
  | none => simp only [Disk.rename, find, hget] at h; cases h
  | some node =>
    have hnode : node ≠ .directory := by
      rintro rfl
      rw [Disk.rename, find_of_get? hget] at h
      cases h
    have hallowed : disk.get? target ≠ some .directory ∧
        (disk.get? target = none → disk.entryFault? target = none) := by
      rw [Disk.rename, find_of_get? hget] at h
      cases node with
      | directory => exact absurd rfl hnode
      | file content => exact of_rename_target h
      | fullDevice => exact of_rename_target h
    have hfree : disk.node? source.path ≠ some .directory := by
      rw [(get?_eq_some_iff.mp hget).2]
      exact fun heq ↦ hnode (Option.some.inj heq)
    have hreplaced : disk.node? target.path ≠ some .directory := by
      cases hthere : disk.get? target with
      | none =>
        rw [node?_of_entryFault? hthere (hallowed.2 hthere)]
        simp
      | some replaced =>
        rw [(get?_eq_some_iff.mp hthere).2, ← hthere]
        exact hallowed.1
    rw [of_rename_eq_ok hget h]
    refine (erase hsource hfree).trans (set htarget ?_ node)
    rw [node?_erase (ne_nil_of_node? hfree)]
    split
    · simp
    · exact hreplaced

end ChangesWithin

/-- Whether a step is about places within a directory, or changes nothing. -/
def Step.StaysIn (directory : Path) : Step → Prop
  | .createDirectory place | .createFile place | .append place _ => directory <+: place.path
  | .rename source target => directory <+: source.path ∧ directory <+: target.path
  | .flush _ => True

/-- **Steps within a directory change nothing beside it**, however far they come. -/
theorem ChangesWithin.perform {steps : List Step} (h : ∀ step ∈ steps, step.StaysIn directory)
    (disk : Disk) : ChangesWithin directory disk (disk.perform steps).2 := by
  induction steps generalizing disk with
  | nil => exact refl _ _
  | cons step rest ih =>
    rw [Disk.perform]
    cases happly : step.apply disk with
    | error fault => exact refl _ _
    | ok after =>
      have hstep : ChangesWithin directory disk after := by
        have hstays := h step List.mem_cons_self
        cases step with
        | createDirectory place => exact createDirectory hstays happly
        | createFile place => exact createFile hstays happly
        | append place bytes => exact modifyFile hstays happly
        | rename source target => exact rename hstays.1 hstays.2 happly
        | flush route =>
          obtain ⟨_, rfl⟩ := of_flush_eq_ok happly
          exact refl _ _
      exact hstep.trans (ih (fun other hother ↦ h other (List.mem_cons_of_mem _ hother)) after)

/-! ## Inside the directory -/

/-- Whether two disks have the same in a directory. -/
def AgreesWithin (directory : Path) (disk other : Disk) : Prop :=
  ∀ path, directory <+: path → other.node? path = disk.node? path

namespace AgreesWithin

theorem symm (h : AgreesWithin directory disk other) : AgreesWithin directory other disk :=
  fun path hpath ↦ (h path hpath).symm

theorem trans (hfirst : AgreesWithin directory disk after)
    (hsecond : AgreesWithin directory after left) : AgreesWithin directory disk left :=
  fun path hpath ↦ (hsecond path hpath).trans (hfirst path hpath)

theorem get? (h : AgreesWithin directory disk other) (hwithin : directory <+: place.path) :
    other.get? place = disk.get? place :=
  get?_congr (h _ hwithin)

theorem set (h : AgreesWithin directory disk other) (hpath : path ≠ []) (node : Node) :
    AgreesWithin directory (disk.set path node) (other.set path node) := by
  intro asked hasked
  rw [node?_set hpath, node?_set hpath, h asked hasked]

theorem erase (h : AgreesWithin directory disk other) (hpath : path ≠ []) :
    AgreesWithin directory (disk.erase path) (other.erase path) := by
  intro asked hasked
  rw [node?_erase hpath, node?_erase hpath, h asked hasked]

/-! ### Operations -/

/-- A file is there, or can be made, whatever is beside its directory. -/
theorem ensureFile (h : AgreesWithin directory disk other)
    (hparent : place.path.dropLast = directory) (hpath : place.path ≠ [])
    (hensure : disk.ensureFile place = .ok after) :
    ∃ made, other.ensureFile place = .ok made ∧ AgreesWithin directory after made := by
  have hget := h.get? (hparent ▸ List.dropLast_prefix place.path)
  cases hthere : disk.get? place with
  | none =>
    rw [ensureFile_of_none hthere] at hensure
    cases hfault : disk.entryFault? place with
    | some fault => rw [hfault] at hensure; cases hensure
    | none =>
      rw [hfault] at hensure
      cases hensure
      have hdirectory := (of_entryFault?_eq_none hfault).2
      have hsame : other.node? place.path.dropLast = some .directory := by
        rw [h _ (hparent ▸ List.prefix_rfl), hdirectory]
      have hfits : other.entryFault? place = none := by
        rw [entryFault?_of_directory hsame, ← entryFault?_of_directory hdirectory, hfault]
      refine ⟨other.set place.path (.file []), ?_, h.set hpath _⟩
      rw [ensureFile_of_none (hget.trans hthere), hfits]
  | some node =>
    rw [Disk.ensureFile, hthere] at hensure
    rw [Disk.ensureFile, hget, hthere]
    cases node with
    | directory => cases hensure
    | file content => cases hensure; exact ⟨other, rfl, h⟩
    | fullDevice => cases hensure; exact ⟨other, rfl, h⟩

variable (hwithin : directory <+: place.path)

include hwithin

theorem find (h : AgreesWithin directory disk other) (hfind : disk.find place = .ok node) :
    other.find place = .ok node := by
  cases hthere : disk.get? place with
  | none => simp only [Disk.find, hthere] at hfind; cases hfind
  | some found =>
    rw [find_of_get? hthere] at hfind
    cases hfind
    exact find_of_get? ((h.get? hwithin).trans hthere)

theorem modifyFile (h : AgreesWithin directory disk other) {change : Bytes → Bytes}
    (hmodify : disk.modifyFile place change = .ok after) :
    ∃ made, other.modifyFile place change = .ok made ∧ AgreesWithin directory after made := by
  unfold Disk.modifyFile at hmodify ⊢
  cases hfind : disk.find place with
  | error fault => rw [hfind] at hmodify; cases hmodify
  | ok node =>
    rw [hfind] at hmodify
    rw [h.find hwithin hfind]
    cases node with
    | directory => cases hmodify
    | fullDevice => cases hmodify
    | file content =>
      cases hmodify
      have hfile : disk.get? place = some (.file content) := by
        cases hthere : disk.get? place with
        | none => simp only [Disk.find, hthere] at hfind; cases hfind
        | some found => rw [find_of_get? hthere] at hfind; cases hfind; rfl
      exact ⟨_, rfl, h.set (path_ne_nil_of_file hfile) _⟩

theorem removeFile (h : AgreesWithin directory disk other)
    (hremove : disk.removeFile place = .ok after) (hpath : place.path ≠ []) :
    ∃ made, other.removeFile place = .ok made ∧ AgreesWithin directory after made := by
  unfold Disk.removeFile at hremove ⊢
  cases hfind : disk.find place with
  | error fault => rw [hfind] at hremove; cases hremove
  | ok node =>
    rw [hfind] at hremove
    rw [h.find hwithin hfind]
    cases node with
    | directory => cases hremove
    | file content => cases hremove; exact ⟨_, rfl, h.erase hpath⟩
    | fullDevice => cases hremove; exact ⟨_, rfl, h.erase hpath⟩

end AgreesWithin

end TableStore.Disk

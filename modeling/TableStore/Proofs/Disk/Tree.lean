import TableStore.Proofs.Disk.Basic

/-!
# Disks that are trees

Nothing stands on a disk but in a directory. An empty disk is a tree in this sense, and the steps
of a change keep it one, because an entry is made in a directory only and a directory is never
overwritten. On a tree there is nothing below a path where there is no directory, so that a
directory just made is empty.
-/

namespace TableStore.Disk

variable {disk other : Disk} {place : Place} {path : Path} {node : Node}

/-- Whether every node is the root or stands in a directory. -/
def IsTree (disk : Disk) : Prop :=
  ∀ path, disk.node? path ≠ none → path ≠ [] → disk.node? path.dropLast = some .directory

theorem isTree_empty : empty.IsTree := by
  intro path hthere hpath
  exact absurd (node?_empty hpath) hthere

/-- There is nothing below a path where there is no directory. -/
theorem IsTree.node?_enter (h : disk.IsTree) {directory : Place}
    (habsent : disk.node? directory.path ≠ some .directory) (name : String) :
    disk.node? (directory.enter name).path = none := by
  apply Classical.byContradiction
  intro hthere
  apply habsent
  rw [← Place.dropLast_path_enter directory name]
  exact h _ hthere (Place.path_enter_ne_nil directory name)

/-- What stands anywhere stands below directories only. -/
theorem IsTree.node?_of_append (h : disk.IsTree) {rest : Path} (hrest : rest ≠ [])
    (hthere : disk.node? (path ++ rest) ≠ none) : disk.node? path = some .directory := by
  have hbelow : ∀ (path : Path) (name : String), disk.node? (path ++ [name]) ≠ none →
      disk.node? path = some .directory := by
    intro path name hname
    have hparent := h _ hname (by simp)
    rwa [List.dropLast_concat] at hparent
  induction rest generalizing path with
  | nil => exact absurd rfl hrest
  | cons name rest ih =>
    by_cases hlast : rest = []
    · subst hlast
      exact hbelow path name hthere
    · rw [List.append_cons] at hthere
      apply hbelow path name
      rw [ih hlast hthere]
      exact nofun

/-- Below nothing there is nothing. -/
theorem IsTree.node?_eq_none (h : disk.IsTree) (hnone : disk.node? path = none) {asked : Path}
    (hwithin : path <+: asked) : disk.node? asked = none := by
  obtain ⟨rest, rfl⟩ := hwithin
  apply Classical.byContradiction
  intro hthere
  by_cases hrest : rest = []
  · rw [hrest, List.append_nil] at hthere
    exact hthere hnone
  · rw [h.node?_of_append hrest hthere] at hnone
    cases hnone

/-! ## Ways to a directory -/

/-- Whether there is a directory at a path and everywhere on the way to it. -/
def IsReached (disk : Disk) (path : Path) : Prop :=
  ∀ before, before <+: path → disk.node? before = some .directory

theorem IsTree.isReached (h : disk.IsTree) (hdirectory : disk.node? path = some .directory) :
    disk.IsReached path := by
  rintro before ⟨rest, rfl⟩
  by_cases hrest : rest = []
  · rwa [hrest, List.append_nil] at hdirectory
  · exact h.node?_of_append hrest (by rw [hdirectory]; exact nofun)

namespace IsReached

theorem node? (h : disk.IsReached path) : disk.node? path = some .directory :=
  h path List.prefix_rfl

/-- The way to a directory leads on to one in it. -/
theorem enter {directory : Place} {name : String} (h : disk.IsReached directory.path)
    (hdirectory : disk.node? (directory.enter name).path = some .directory) :
    disk.IsReached (directory.enter name).path := by
  intro before hbefore
  rw [Place.path_enter] at hbefore hdirectory
  rcases List.prefix_concat_iff.mp hbefore with rfl | hbefore
  · exact hdirectory
  · exact h before hbefore

/-- Why there is nothing at a path is told behind the directories on the way. -/
theorem absence_append {rest : Path} (seen : Path) (h : disk.IsReached (seen ++ rest))
    (below : Path) :
    disk.absence seen (rest ++ below) = disk.absence (seen ++ rest) below := by
  induction rest generalizing seen with
  | nil => rw [List.nil_append, List.append_nil]
  | cons name rest ih =>
    rw [List.append_cons] at h ⊢
    rw [List.cons_append, absence, h _ (List.prefix_append _ _)]
    exact ih _ h

/-- Below a file there is nothing because it is no directory. -/
theorem absence_of_file {directory : Path} {name : String} (h : disk.IsReached directory)
    (hnode : disk.node? (directory ++ [name]) = some node) (hfile : node ≠ .directory)
    (below : Path) : disk.absence [] (directory ++ [name] ++ below) = .notADirectory := by
  rw [List.append_assoc, absence_append [] h, List.nil_append, List.singleton_append, absence,
    hnode]
  cases node with
  | directory => exact absurd rfl hfile
  | file content => rfl
  | fullDevice => rfl

/-- A short name that is not in a directory is not found. -/
theorem absence_enter {directory : Place} {name : String} (h : disk.IsReached directory.path)
    (hnone : disk.node? (directory.enter name).path = none)
    (hname : name.utf8ByteSize ≤ nameLimit) :
    disk.absence [] (directory.enter name).path = .notFound := by
  rw [Place.path_enter] at hnone ⊢
  rw [absence_append [] h, List.nil_append, absence, hnone]
  dsimp only
  rw [if_neg (Nat.not_lt.mpr hname)]

end IsReached

/-! ## Changes -/

/-- A node put into a directory leaves a tree, unless it takes the place of a directory. -/
theorem IsTree.set (h : disk.IsTree) (hpath : path ≠ [])
    (hparent : disk.node? path.dropLast = some .directory)
    (hkeeps : node = .directory ∨ disk.node? path ≠ some .directory) :
    (disk.set path node).IsTree := by
  intro asked hthere hasked
  have hbelow : path ≠ path.dropLast := by
    intro heq
    have hlength := congrArg List.length heq
    have hpositive := List.length_pos_iff.mpr hpath
    rw [List.length_dropLast] at hlength
    omega
  rw [node?_set hpath] at hthere ⊢
  by_cases hself : path = asked
  · rw [← hself, if_neg hbelow, hparent]
  · rw [if_neg hself] at hthere
    have hold := h asked hthere hasked
    by_cases hinside : path = asked.dropLast
    · rw [if_pos hinside]
      rcases hkeeps with rfl | hfile
      · rfl
      · rw [← hinside] at hold
        exact absurd hold hfile
    · rw [if_neg hinside, hold]

/-- A tree from which a file is taken is a tree. -/
theorem IsTree.erase (h : disk.IsTree) (hpath : path ≠ [])
    (hfile : disk.node? path ≠ some .directory) : (disk.erase path).IsTree := by
  intro asked hthere hasked
  rw [node?_erase hpath] at hthere ⊢
  by_cases hself : path = asked
  · rw [if_pos hself] at hthere
    exact absurd rfl hthere
  · rw [if_neg hself] at hthere
    have hold := h asked hthere hasked
    have hinside : path ≠ asked.dropLast := by
      intro heq
      rw [← heq] at hold
      exact hfile hold
    rw [if_neg hinside, hold]

/-- What stands at a place that is not the root stands in a directory. -/
theorem IsTree.parent (h : disk.IsTree) (hfile : disk.get? place = some node)
    (hnode : node ≠ .directory) :
    place.path ≠ [] ∧ disk.node? place.path.dropLast = some .directory := by
  obtain ⟨_, hthere⟩ := get?_eq_some_iff.mp hfile
  have hpath : place.path ≠ [] := by
    intro hroot
    rw [hroot] at hthere
    exact hnode (Option.some.inj hthere).symm
  exact ⟨hpath, h _ (by rw [hthere]; exact Option.some_ne_none _) hpath⟩

/-- Changing what is in a file leaves a tree. -/
theorem IsTree.modifyFile (h : disk.IsTree) {change : Bytes → Bytes}
    (hmodify : disk.modifyFile place change = .ok other) : other.IsTree := by
  unfold Disk.modifyFile at hmodify
  cases hget : disk.get? place with
  | none => simp only [find, hget] at hmodify; cases hmodify
  | some node =>
    rw [find_of_get? hget] at hmodify
    cases node with
    | directory => cases hmodify
    | fullDevice => cases hmodify
    | file content =>
      cases hmodify
      obtain ⟨hpath, hparent⟩ := h.parent hget (by simp)
      refine h.set hpath hparent (.inr ?_)
      rw [(get?_eq_some_iff.mp hget).2]
      simp

/-- A node put where an entry can be made leaves a tree. -/
theorem IsTree.entry (h : disk.IsTree) (habsent : disk.get? place = none)
    (hfault : disk.entryFault? place = none) (node : Node) :
    place.path ≠ [] ∧ (disk.set place.path node).IsTree := by
  obtain ⟨hfits, hparent⟩ := of_entryFault?_eq_none hfault
  rw [get?, if_neg (Nat.not_lt.mpr hfits)] at habsent
  have hpath : place.path ≠ [] := by
    intro hroot
    rw [hroot] at habsent
    cases habsent
  refine ⟨hpath, h.set hpath hparent (.inr ?_)⟩
  rw [habsent]
  simp

theorem IsTree.ensureFile (h : disk.IsTree) (hensure : disk.ensureFile place = .ok other) :
    other.IsTree := by
  cases hget : disk.get? place with
  | none =>
    rw [ensureFile_of_none hget] at hensure
    cases hfault : disk.entryFault? place with
    | some fault => rw [hfault] at hensure; cases hensure
    | none =>
      rw [hfault] at hensure
      cases hensure
      exact (h.entry hget hfault _).2
  | some node =>
    rw [Disk.ensureFile, hget] at hensure
    cases node with
    | directory => cases hensure
    | file content => cases hensure; exact h
    | fullDevice => cases hensure; exact h

/-- A target at which something can be put is not a directory, and can be made if it is not
there. -/
theorem of_rename_target {target : Place} {moved : Disk}
    (h : (match disk.get? target with
      | some .directory => (.error .isADirectory : Except FileFault Disk)
      | some _ => .ok moved
      | none =>
        match disk.entryFault? target with
        | some fault => .error fault
        | none => .ok moved) = .ok other) :
    disk.get? target ≠ some .directory ∧
      (disk.get? target = none → disk.entryFault? target = none) := by
  cases hget : disk.get? target with
  | none =>
    refine ⟨nofun, fun _ ↦ ?_⟩
    rw [hget] at h
    cases hfault : disk.entryFault? target with
    | some fault => rw [hfault] at h; cases h
    | none => rfl
  | some node =>
    refine ⟨?_, nofun⟩
    rintro heq
    rw [hget, heq] at h
    cases h

theorem IsTree.rename {source target : Place} (h : disk.IsTree)
    (hrename : disk.rename source target = .ok other) : other.IsTree := by
  cases hsource : disk.get? source with
  | none => simp only [Disk.rename, find, hsource] at hrename; cases hrename
  | some node =>
    have hnode : node ≠ .directory := by
      rintro rfl
      rw [Disk.rename, find_of_get? hsource] at hrename
      cases hrename
    have hfile : disk.node? source.path ≠ some .directory := by
      rw [(get?_eq_some_iff.mp hsource).2]
      exact fun heq ↦ hnode (Option.some.inj heq)
    obtain ⟨hpath, _⟩ := h.parent hsource hnode
    have herased := h.erase hpath hfile
    -- The file leaves its old name first, but not the directory of the new one.
    have hmoves : target.path ≠ [] → disk.node? target.path.dropLast = some .directory →
        disk.node? target.path ≠ some .directory →
          ((disk.erase source.path).set target.path node).IsTree := by
      intro htarget hparent hreplaced
      have hstill : source.path ≠ target.path.dropLast := fun heq ↦ hfile (heq ▸ hparent)
      apply herased.set htarget
      · rw [node?_erase hpath, if_neg hstill, hparent]
      · right
        rw [node?_erase hpath]
        split
        · simp
        · exact hreplaced
    rw [of_rename_eq_ok hsource hrename]
    have hallowed : disk.get? target ≠ some .directory ∧
        (disk.get? target = none → disk.entryFault? target = none) := by
      rw [Disk.rename, find_of_get? hsource] at hrename
      cases node with
      | directory => exact absurd rfl hnode
      | file content => exact of_rename_target hrename
      | fullDevice => exact of_rename_target hrename
    cases hget : disk.get? target with
    | none =>
      obtain ⟨hmade, _⟩ := h.entry hget (hallowed.2 hget) node
      obtain ⟨hfits, hparent⟩ := of_entryFault?_eq_none (hallowed.2 hget)
      rw [get?, if_neg (Nat.not_lt.mpr hfits)] at hget
      exact hmoves hmade hparent (by simp [hget])
    | some replaced =>
      have hreplaced : replaced ≠ .directory := by
        rintro rfl
        exact hallowed.1 hget
      obtain ⟨hmade, hparent⟩ := h.parent hget hreplaced
      apply hmoves hmade hparent
      rw [(get?_eq_some_iff.mp hget).2]
      exact fun heq ↦ hreplaced (Option.some.inj heq)

/-- **Steps leave a tree**, however far they come. -/
theorem IsTree.perform (h : disk.IsTree) (steps : List Step) :
    (disk.perform steps).2.IsTree := by
  induction steps generalizing disk with
  | nil => exact h
  | cons step rest ih =>
    rw [Disk.perform]
    cases happly : step.apply disk with
    | error fault => exact h
    | ok after =>
      apply ih
      cases step with
      | createDirectory place =>
        obtain ⟨hnone, hparent, rfl⟩ := of_createDirectory_eq_ok happly
        have hpath : place.path ≠ [] := by
          intro hroot
          rw [hroot] at hnone
          cases hnone
        exact h.set hpath hparent (.inl rfl)
      | createFile place =>
        rw [Step.apply, createFile] at happly
        cases hensure : disk.ensureFile place with
        | error fault => rw [hensure] at happly; cases happly
        | ok made => rw [hensure] at happly; exact (h.ensureFile hensure).modifyFile happly
      | append place bytes => exact h.modifyFile happly
      | rename source target => exact h.rename happly
      | flush route =>
        obtain ⟨_, rfl⟩ := of_flush_eq_ok happly
        exact h

end TableStore.Disk

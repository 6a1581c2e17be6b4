import Mathlib.Control.Monad.Basic
import TableStore.Proofs.Disk.Steps
import TableStore.Proofs.Disk.Sibling
import TableStore.Proofs.Disk.Within
import TableStore.Proofs.Schema.Canonical
import TableStore.Proofs.Schema.Descriptor

/-!
# A descriptor is where it belongs as a whole or not at all

A descriptor is saved in steps. They make a draft, write to it, put it in its place and flush the
directory, and only one of them touches the place. Where the steps stop before it there is a file
more or another one, but it is the draft, and the route to the place still leads to nothing. Behind
it the place has all of the descriptor, from which the schema is read under any name a table can
have, even if the directory could not be flushed. Nothing begins where there is something already,
or with a schema that is not valid. That something is there is what the route tells: a slash behind
the name of a file leads to nothing. And the draft has to be a file of its own, not a link to one.
-/

namespace TableStore

namespace Disk

variable {disk left : Disk} {place : Place}

/-! ## Files that are made -/

/-- The root is not a file that could be made. -/
theorem path_ne_nil_of_createFile (h : disk.createFile place = .ok left) : place.path ≠ [] := by
  intro hroot
  unfold createFile ensureFile entryFault? at h
  by_cases hlong : textLimit < place.length
  · simp only [get?, hlong, if_true, reduceCtorEq] at h
  · simp only [get?, node?, hlong, hroot, List.isEmpty_nil, if_true, if_false, reduceCtorEq] at h

/-- A file that has been made has taken the place of no directory. -/
theorem node?_of_createFile (h : disk.createFile place = .ok left) :
    disk.node? place.path ≠ some .directory := by
  intro hdirectory
  unfold createFile ensureFile entryFault? at h
  by_cases hlong : textLimit < place.length
  · simp only [get?, hlong, if_true, reduceCtorEq] at h
  · simp only [get?, hdirectory, hlong, if_false, reduceCtorEq] at h

end Disk

namespace Descriptor

variable {disk found left : Disk} {route : Route} {draft place : Place} {schema : Schema}
  {bytes : Bytes} {rest : List Disk.Step}

/-! ## Drafts -/

/-- Whether a disk differs from another one by a file in which bytes have been drafted. -/
structure IsDrafted (disk : Disk) (draft : Place) (bytes : Bytes) (found : Disk) : Prop where
  path_ne_nil : draft.path ≠ []
  short : draft.length ≤ Disk.textLimit
  free : disk.node? draft.path ≠ some .directory
  eq : found = disk.set draft.path (.file bytes)

/-- A file just made is an empty draft. -/
theorem isDrafted_of_createFile (h : disk.createFile draft = .ok found) :
    IsDrafted disk draft [] found := by
  have hpath := Disk.path_ne_nil_of_createFile h
  obtain ⟨heq, hget⟩ := Disk.of_createFile_eq_ok hpath h
  exact ⟨hpath, (Disk.get?_eq_some_iff.mp hget).1, Disk.node?_of_createFile h, heq⟩

namespace IsDrafted

theorem get? (h : IsDrafted disk draft bytes found) : found.get? draft = some (.file bytes) := by
  rw [h.eq]
  exact Disk.get?_set_self h.path_ne_nil h.short disk _

/-- Bytes are drafted behind others. -/
theorem append (h : IsDrafted disk draft bytes found) {more : Bytes}
    (happend : (Disk.Step.append draft more).apply found = .ok left) :
    IsDrafted disk draft (bytes ++ more) left := by
  rw [Disk.Step.apply, Disk.modifyFile_of_file h.get?, h.eq, Disk.set_set] at happend
  exact ⟨h.path_ne_nil, h.short, h.free, (Except.ok.inj happend).symm⟩

/-- A draft that has been put in a place has taken no directory away. -/
theorem node?_of_directory (h : IsDrafted disk draft bytes found) (hplace : place.path ≠ [])
    (hfree : disk.node? place.path = none) {path : Path}
    (hdirectory : disk.node? path = some .directory) :
    ((found.erase draft.path).set place.path (.file bytes)).node? path = some .directory := by
  have hdraft : draft.path ≠ path := by
    rintro rfl
    exact h.free hdirectory
  have hother : place.path ≠ path := by
    rintro rfl
    rw [hfree] at hdirectory
    cases hdirectory
  rw [Disk.node?_set hplace, if_neg hother, Disk.node?_erase h.path_ne_nil, if_neg hdraft, h.eq,
    Disk.node?_set h.path_ne_nil, if_neg hdraft, hdirectory]

/-- A draft that has been put where a route leads is read by the route. -/
theorem readAt (h : IsDrafted disk draft bytes found) (habsent : disk.hasAt route = false)
    (hlocate : disk.locate route = .ok place) :
    ((found.erase draft.path).set place.path (.file bytes)).readAt route = .ok bytes := by
  have hfree := Disk.node?_of_hasAt habsent hlocate
  have hplace : place.path ≠ [] := by
    intro hroot
    rw [hroot] at hfree
    cases hfree
  have hstill := Disk.locate_of_directories
    (fun path hdirectory ↦ h.node?_of_directory hplace hfree hdirectory) hlocate
  have hnode : ((found.erase draft.path).set place.path (.file bytes)).node? place.path =
      some (.file bytes) := by
    rw [Disk.node?_set hplace, if_pos rfl]
  rw [Disk.readAt, hstill]
  dsimp only
  rw [Disk.read, Disk.find_of_get? (Disk.get?_of_locate hstill hnode)]
  rfl

end IsDrafted

/-- Bytes that have been drafted are in the draft. -/
theorem isDrafted_of_perform (h : disk.perform (draftSteps draft bytes) = (.ok (), found)) :
    IsDrafted disk draft bytes found := by
  rw [draftSteps, Disk.perform] at h
  split at h
  · cases h
  · next hcreate =>
    rw [Disk.perform] at h
    split at h
    · cases h
    · next happend =>
      cases h
      exact (isDrafted_of_createFile hcreate).append happend

/-- Bytes that have been drafted and put in their place are there, and no longer in the draft, and
the directory has been flushed. -/
theorem of_perform_saveSteps (h : disk.perform (saveSteps draft place bytes) = (.ok (), left)) :
    left.flushAt place.route.holder = .ok () ∧
      ∃ drafted, IsDrafted disk draft bytes drafted ∧
        left = (drafted.erase draft.path).set place.path (.file bytes) := by
  rw [saveSteps, draftSteps, List.cons_append, List.cons_append, List.nil_append,
    Disk.perform] at h
  split at h
  · cases h
  · next hcreate =>
    rw [Disk.perform] at h
    split at h
    · cases h
    · next drafted happend =>
      have hdrafted := (isDrafted_of_createFile hcreate).append happend
      rw [Disk.perform] at h
      split at h
      · cases h
      · next renamed hrename =>
        rw [Disk.perform] at h
        split at h
        · cases h
        · next hflush =>
          cases h
          obtain ⟨hflushed, rfl⟩ := Disk.of_flush_eq_ok hflush
          exact ⟨hflushed, drafted, hdrafted, Disk.of_rename_eq_ok hdrafted.get? hrename⟩

/-- Where steps that begin with a draft stop there is no draft yet, or any beginning of it, or all
of it and what follows. -/
theorem of_stops_draftSteps (h : disk.Stops (draftSteps draft bytes ++ rest) found) :
    found = disk ∨ (∃ written, written <+: bytes ∧ IsDrafted disk draft written found) ∨
      ∃ drafted, IsDrafted disk draft bytes drafted ∧ drafted.Stops rest found := by
  cases h with
  | before => exact .inl rfl
  | @behind _ made _ _ _ hcreate h =>
    have hmade := isDrafted_of_createFile hcreate
    right
    cases h with
    | before => exact .inl ⟨[], List.nil_prefix, hmade⟩
    | @within _ _ _ _ written _ hwritten h => exact .inl ⟨written, hwritten, hmade.append h⟩
    | behind happend h => exact .inr ⟨_, hmade.append happend, h⟩

/-! ## Saving -/

/-- The steps in which the descriptor of a schema is saved where a route leads. -/
def stepsToSave (disk : Disk) (route : Route) (schema : Schema) : List Disk.Step :=
  if disk.hasAt route then []
  else
    match encode schema, disk.locate (route.withExtension "tmp") with
    | .ok bytes, .ok draft =>
      match disk.locate route with
      | .ok place => saveSteps draft place bytes
      | .error _ => draftSteps draft bytes
    | _, _ => []

/-- What saving leaves is what its steps leave. -/
theorem save_eq_perform (disk : Disk) (route : Route) (schema : Schema) :
    (save disk route schema).2 = (disk.perform (stepsToSave disk route schema)).2 := by
  unfold save stepsToSave store
  split
  · rfl
  · cases encode schema with
    | error e => rfl
    | ok bytes =>
      dsimp only
      cases disk.locate (route.withExtension "tmp") with
      | error fault => rfl
      | ok draft =>
        dsimp only
        cases disk.locate route with
        | ok place =>
          dsimp only
          obtain ⟨result, left⟩ := disk.perform (saveSteps draft place bytes)
          cases result <;> rfl
        | error fault =>
          dsimp only
          obtain ⟨result, left⟩ := disk.perform (draftSteps draft bytes)
          cases result <;> rfl

/-- A saved descriptor has come from a draft of it that has been put where the route leads, and its
directory has been flushed. -/
theorem of_save_eq_ok (h : save disk route schema = (.ok (), left)) :
    disk.hasAt route = false ∧ schema.validate = .ok () ∧ left.flushAt route.holder = .ok () ∧
      ∃ place draft drafted, disk.locate route = .ok place ∧
        disk.locate (route.withExtension "tmp") = .ok draft ∧
        IsDrafted disk draft (withChecksum (content schema)) drafted ∧
        left = (drafted.erase draft.path).set place.path
          (.file (withChecksum (content schema))) := by
  unfold save encode at h
  split at h
  · cases h
  · next habsent =>
    cases hvalid : schema.validate with
    | error e => rw [hvalid] at h; cases h
    | ok _ =>
      rw [hvalid] at h
      dsimp only at h
      refine ⟨Bool.eq_false_iff.mpr habsent, rfl, ?_⟩
      split at h
      · cases h
      · next draft hdraft =>
        split at h
        · cases h
        · next hstore =>
          cases h
          unfold store at hstore
          split at hstore
          · next place hplace =>
            obtain ⟨hflushed, drafted, hdrafted, heq⟩ := of_perform_saveSteps hstore
            obtain ⟨_, _, hroute⟩ := Disk.locate_eq_ok_iff.mp hplace
            rw [hroute] at hflushed
            exact ⟨hflushed, place, draft, drafted, hplace, hdraft, hdrafted, heq⟩
          · split at hstore <;> cases hstore

/-- Saving under a name alone never succeeds: there is no name of its directory to open it by. -/
theorem save_ne_ok_of_alone {name : String} (hlead : route.lead = 0)
    (hparts : route.parts = [name]) : (save disk route schema).1 ≠ .ok () := by
  intro hok
  have hsave : save disk route schema = (.ok (), (save disk route schema).2) := Prod.ext hok rfl
  obtain ⟨_, _, hflushed, _⟩ := of_save_eq_ok hsave
  rw [Disk.flushAt_of_alone _ hlead hparts] at hflushed
  cases hflushed

/-- The descriptor is in its place all the same. -/
example :
    let disk := Disk.empty.set ["books"] .directory
    let alone := Route.ofText ["books"] "schema.rls"
    (save disk alone booksSchema).1 = .error (.file .notFound) ∧
      load (save disk alone booksSchema).2 alone "books" = .ok booksSchema := by
  decide +kernel

/-! ## What saving keeps to -/

/-- Whether a schema has been saved: it can be loaded, under its own name and any other that a table
can have, there is no draft left and nothing else has changed, and the directory can be flushed. -/
structure IsSaved (disk : Disk) (route : Route) (schema : Schema) (left : Disk) : Prop where
  load : load left route schema.name = .ok schema
  renamed : ∀ name, Schema.checkName name = .ok () →
    Descriptor.load left route name = .ok { schema with name }
  misnamed : ∀ name fault, Schema.checkName name = .error fault →
    Descriptor.load left route name = .error (.corruptSchema (.schema fault))
  beside : ∃ place draft, disk.locate route = .ok place ∧
    disk.locate (route.withExtension "tmp") = .ok draft ∧ left.node? draft.path = none ∧
    ∀ path, path ≠ place.path → path ≠ draft.path → left.node? path = disk.node? path
  flushed : left.flushAt route.holder = .ok ()

/-- Whether there is nothing at the end of a route or all of the descriptor of a schema. -/
def IsWhole (disk : Disk) (route : Route) (schema : Schema) : Prop :=
  disk.hasAt route = false ∨
    ∃ bytes, encode schema = .ok bytes ∧ disk.readAt route = .ok bytes

/-- What saving keeps to: it takes no step if something is there already or if the schema is at
fault, and wherever its steps stop or fail there is nothing at the end of the route or all of the
descriptor. With links it does as much, if neither the place nor the draft is one. -/
structure SavesWhole (disk : Disk) (route : Route) (schema : Schema) : Prop where
  steps : (save disk route schema).2 = (disk.perform (stepsToSave disk route schema)).2
  taken : disk.hasAt route = true →
    save disk route schema = (.error (.tableExists schema.name), disk) ∧
      stepsToSave disk route schema = []
  refused : ∀ fault, disk.hasAt route = false → schema.check = .error fault →
    save disk route schema = (.error (.invalidSchema fault), disk) ∧
      stepsToSave disk route schema = []
  saved : ∀ left, save disk route schema = (.ok (), left) → IsSaved disk route schema left
  failed : ∀ fault left, disk.hasAt route = false → save disk route schema = (.error fault, left) →
    IsWhole left route schema
  whole : ∀ found, disk.hasAt route = false → disk.Stops (stepsToSave disk route schema) found →
    IsWhole found route schema
  linked : ∀ links, (∀ place, disk.locate route = .ok place → links place.path = none) →
    (∀ draft, disk.locate (route.withExtension "tmp") = .ok draft → links draft.path = none) →
    Linked.perform ⟨disk, links⟩ (stepsToSave disk route schema) =
      ((disk.perform (stepsToSave disk route schema)).1, ⟨(save disk route schema).2, links⟩) ∧
    ∀ found, Linked.Stops ⟨disk, links⟩ (stepsToSave disk route schema) found →
      found.links = links ∧ disk.Stops (stepsToSave disk route schema) found.disk

/-- Bytes at the end of a route that are a descriptor are loaded under any name a table can have. -/
theorem load_of_readAt (hread : disk.readAt route = .ok (withChecksum (content schema)))
    (hcheck : schema.check = .ok ()) (name : String) :
    load disk route name =
      match Schema.checkName name with
      | .error fault => .error (.corruptSchema (.schema fault))
      | .ok () => .ok { schema with name } := by
  rw [load, hread]
  dsimp only
  rw [decode, read_withChecksum_named hcheck]
  cases Schema.checkName name <;> rfl

/-- The steps of a save meet no link if neither the place nor the draft is one. -/
theorem misses_stepsToSave {links : Path → Option Path}
    (hplace : ∀ place, disk.locate route = .ok place → links place.path = none)
    (hdraft : ∀ draft, disk.locate (route.withExtension "tmp") = .ok draft →
      links draft.path = none) (schema : Schema) :
    ∀ step ∈ stepsToSave disk route schema, Linked.Misses links step := by
  unfold stepsToSave
  split
  · exact List.forall_mem_nil _
  · split
    · next bytes draft _ hdraftPlace =>
      have hmisses := hdraft draft hdraftPlace
      split
      · next place hroute =>
        simp only [saveSteps, draftSteps, List.cons_append, List.nil_append, List.forall_mem_cons]
        exact ⟨hmisses, hmisses, ⟨hmisses, hplace place hroute⟩, trivial, List.forall_mem_nil _⟩
      · simp only [draftSteps, List.forall_mem_cons]
        exact ⟨hmisses, hmisses, List.forall_mem_nil _⟩
    · exact List.forall_mem_nil _

section Extension

variable (htree : disk.IsTree) (hstart : disk.node? route.start = some .directory)
  (hother : route.extension? ≠ some "tmp")

include htree hstart hother

theorem isSaved_of_save (h : save disk route schema = (.ok (), left)) :
    IsSaved disk route schema left := by
  obtain ⟨habsent, hvalid, hflushed, place, draft, drafted, hplace, hdraft, hdrafted, rfl⟩ :=
    of_save_eq_ok h
  have hcheck := Schema.check_of_validate hvalid
  have hload := load_of_readAt (hdrafted.readAt habsent hplace) hcheck
  have hne := htree.path_ne_of_withExtension hstart habsent (by decide) (by decide) hother hplace
    hdraft
  have hnotRoot : place.path ≠ [] := by
    intro hroot
    have hnone := Disk.node?_of_hasAt habsent hplace
    rw [hroot] at hnone
    cases hnone
  refine ⟨?_, ?_, ?_, ⟨place, draft, hplace, hdraft, ?_, ?_⟩, hflushed⟩
  · rw [hload, Schema.checkName_of_check hcheck]
  · intro name hname
    rw [hload, hname]
  · intro name fault hname
    rw [hload, hname]
  · rw [Disk.node?_set hnotRoot, if_neg hne.symm, Disk.node?_erase hdrafted.path_ne_nil,
      if_pos rfl]
  · intro path hnotPlace hnotDraft
    rw [Disk.node?_set hnotRoot, if_neg hnotPlace.symm, Disk.node?_erase hdrafted.path_ne_nil,
      if_neg hnotDraft.symm, hdrafted.eq, Disk.node?_set hdrafted.path_ne_nil,
      if_neg hnotDraft.symm]

/-- A draft is not where the route leads. -/
theorem isWhole_of_isDrafted (habsent : disk.hasAt route = false)
    (hdraft : disk.locate (route.withExtension "tmp") = .ok draft)
    (h : IsDrafted disk draft bytes found) : IsWhole found route schema := by
  left
  rw [h.eq]
  apply Disk.hasAt_set_file h.path_ne_nil habsent
  intro place hplace
  exact htree.path_ne_of_withExtension hstart habsent (by decide) (by decide) hother hplace hdraft

/-- **Wherever saving stops there is nothing at the end of the route or all of the descriptor.** -/
theorem isWhole_of_stops (habsent : disk.hasAt route = false)
    (h : disk.Stops (stepsToSave disk route schema) found) : IsWhole found route schema := by
  rw [stepsToSave, if_neg (Bool.eq_false_iff.mp habsent)] at h
  split at h
  · next bytes draft hencode hdraft =>
    have hfront : ∀ written, IsDrafted disk draft written found → IsWhole found route schema :=
      fun written hdrafted ↦ isWhole_of_isDrafted htree hstart hother habsent hdraft hdrafted
    split at h
    · next place hplace =>
      rcases of_stops_draftSteps h with rfl | ⟨written, _, hdrafted⟩ | ⟨drafted, hdrafted, h⟩
      · exact .inl habsent
      · exact hfront written hdrafted
      · cases h with
        | before => exact hfront bytes hdrafted
        | behind hrename h =>
          rw [Disk.eq_of_stops_flush h, Disk.of_rename_eq_ok hdrafted.get? hrename]
          exact .inr ⟨bytes, hencode, hdrafted.readAt habsent hplace⟩
    · rw [← List.append_nil (draftSteps draft bytes)] at h
      rcases of_stops_draftSteps h with rfl | ⟨written, _, hdrafted⟩ | ⟨drafted, hdrafted, h⟩
      · exact .inl habsent
      · exact hfront written hdrafted
      · cases h
        exact hfront bytes hdrafted
  · cases h
    exact .inl habsent

end Extension

/-- A directory in which an earlier draft has been left. -/
def draftedDisk : Disk :=
  (Disk.empty.set ["books"] .directory).set ["books", "schema.tmp"] (.file [82, 76])

/-- A way back and forth to the descriptor in that directory. -/
def winding : Route := Route.ofText [] "books/./../books/schema.rls"

theorem isTree_draftedDisk : draftedDisk.IsTree := by
  have hbooks : (Disk.empty.set ["books"] .directory).IsTree :=
    Disk.isTree_empty.set (List.cons_ne_nil _ _) rfl (.inl rfl)
  refine hbooks.set (List.cons_ne_nil _ _) ?_ (.inr ?_)
  · rw [Disk.node?_set (List.cons_ne_nil _ _)]
    rfl
  · rw [Disk.node?_set (List.cons_ne_nil _ _), if_neg (by decide),
      Disk.node?_empty (List.cons_ne_nil _ _)]
    exact nofun

/-- A directory with a descriptor in a file `x`. -/
def describedDisk : Disk :=
  (Disk.empty.set ["books"] .directory).set ["books", "x"]
    (.file (withChecksum (content booksSchema)))

/-- A file `notes`, and a link to it where the draft of `schema.rls` would be. -/
def linkedDisk : Linked :=
  ⟨Disk.empty.set ["notes"] (.file [1, 2]),
    fun path ↦ if path = ["schema.tmp"] then some ["notes"] else none⟩

/-- Nothing but a link from `schema.rls` to where its draft would be. -/
def draftLink : Linked :=
  ⟨Disk.empty, fun path ↦ if path = ["schema.rls"] then some ["schema.tmp"] else none⟩

end Descriptor

end TableStore

import Mathlib.Logic.Function.Basic
import TableStore.Proofs.Disk.Basic

/-!
# Steps that stop, and steps that meet links

Steps can stop before any one of them, and in the middle of an append. That is said for whatever
they are performed on: a disk, or a disk with links. A link is a name for the file under another
path, and nothing is kept under the name itself. What is written to a link comes to its file, but
what is renamed is the link. So steps that meet a link change files which they do not name, and
steps that meet none do what they do without links, wherever they stop.
-/

namespace TableStore

open Function (update)

namespace Disk

/-! ## Steps that stop -/

/-- How a state is found when steps on it have stopped: before one of them, or in the middle of an
append, of which any beginning has been done. -/
inductive Step.Stops {σ : Type} (apply : σ → Step → Except FileFault σ) :
    σ → List Step → σ → Prop where
  | before (state : σ) (steps : List Step) : Stops apply state steps state
  | within {state found : σ} {place : Place} {bytes written : Bytes} {rest : List Step}
      (hwritten : written <+: bytes) (h : apply state (.append place written) = .ok found) :
      Stops apply state (.append place bytes :: rest) found
  | behind {state after found : σ} {step : Step} {rest : List Step}
      (hstep : apply state step = .ok after) (h : Stops apply after rest found) :
      Stops apply state (step :: rest) found

/-- How a disk is found when steps on it have stopped. -/
abbrev Stops : Disk → List Step → Disk → Prop :=
  Step.Stops Step.apply

variable {disk found : Disk}

/-- Where steps come to by themselves is one of the ways in which they can stop. -/
theorem stops_perform (disk : Disk) (steps : List Step) :
    Stops disk steps (disk.perform steps).2 := by
  induction steps generalizing disk with
  | nil => exact .before disk []
  | cons step rest ih =>
    rw [perform]
    cases hstep : step.apply disk with
    | error fault => exact .before disk _
    | ok after => exact .behind hstep (ih after)

/-- A flush changes nothing, be it done or not. -/
theorem eq_of_stops_flush {route : Route} (h : disk.Stops [.flush route] found) : found = disk := by
  cases h with
  | before => rfl
  | behind hflush h =>
    obtain ⟨_, rfl⟩ := of_flush_eq_ok hflush
    cases h
    rfl

end Disk

/-! ## Links -/

/-- A disk with links to files. The names of a file that has several of them are links to a path
where the file is kept. Directories are not linked, because a route starts in the directory to which
the way in front of it has led. -/
structure Linked where
  disk : Disk
  links : Path → Option Path

namespace Linked

/-- The place of the file for which a name stands. -/
def home (linked : Linked) (place : Place) : Place :=
  { place with path := (linked.links place.path).getD place.path }

/-- What comes of an operation that moves no link. -/
def besideLinks (linked : Linked) (outcome : Except FileFault Disk) : Except FileFault Linked :=
  outcome.map fun disk ↦ { linked with disk }

/-- Renames a link to a path. It can be put wherever an empty file could. -/
def renameLink (linked : Linked) (source target : Place) (path : Path) : Except FileFault Linked :=
  match (linked.disk.set source.path (.file [])).rename source target with
  | .error fault => .error fault
  | .ok disk =>
    .ok ⟨disk.erase target.path,
      update (update linked.links source.path none) target.path (some path)⟩

/-- Performs one step. -/
def apply (linked : Linked) : Disk.Step → Except FileFault Linked
  | .createDirectory place =>
    if (linked.links place.path).isSome then .error .alreadyExists
    else linked.besideLinks (linked.disk.createDirectory place)
  | .createFile place => linked.besideLinks (linked.disk.createFile (linked.home place))
  | .append place bytes =>
    linked.besideLinks (linked.disk.modifyFile (linked.home place) (· ++ bytes))
  | .rename source target =>
    match linked.links source.path with
    | some path => linked.renameLink source target path
    | none =>
      (linked.disk.rename source target).map fun disk ↦
        ⟨disk, update linked.links target.path none⟩
  | .flush route => linked.besideLinks ((Disk.Step.flush route).apply linked.disk)

/-- Performs steps one after the other up to the first that fails. -/
def perform (linked : Linked) : List Disk.Step → Except FileFault Unit × Linked
  | [] => (.ok (), linked)
  | step :: rest =>
    match linked.apply step with
    | .error fault => (.error fault, linked)
    | .ok linked => perform linked rest

/-- How a disk with links is found when steps on it have stopped. -/
abbrev Stops : Linked → List Disk.Step → Linked → Prop :=
  Disk.Step.Stops apply

variable {disk : Disk} {links : Path → Option Path} {place : Place} {step : Disk.Step}

/-- Whether a step meets no link. -/
def Misses (links : Path → Option Path) : Disk.Step → Prop
  | .createDirectory place | .createFile place | .append place _ => links place.path = none
  | .rename source target => links source.path = none ∧ links target.path = none
  | .flush _ => True

theorem home_of_none (h : links place.path = none) : home ⟨disk, links⟩ place = place := by
  rw [home]
  dsimp only
  rw [h, Option.getD_none]

/-- A step that meets no link leaves the links alone. -/
theorem apply_of_misses (h : Misses links step) :
    apply ⟨disk, links⟩ step = (step.apply disk).map fun disk ↦ ⟨disk, links⟩ := by
  cases step with
  | createDirectory place =>
    have hnone : links place.path = none := h
    have hlink : ¬ (links place.path).isSome = true := by
      rw [hnone]
      exact Bool.false_ne_true
    rw [apply, if_neg hlink]
    rfl
  | createFile place =>
    rw [apply, home_of_none h]
    rfl
  | append place bytes =>
    rw [apply, home_of_none h]
    rfl
  | rename source target =>
    obtain ⟨hsource, htarget⟩ := h
    have hlinks : update links target.path none = links :=
      Function.update_eq_self_iff.mpr htarget.symm
    rw [apply]
    dsimp only
    rw [hsource, hlinks]
    rfl
  | flush route => rfl

/-- What a step that meets no link comes to it comes to without links. -/
theorem of_apply_eq_ok_of_misses (h : Misses links step) {after : Linked}
    (happly : apply ⟨disk, links⟩ step = .ok after) :
    ∃ left, step.apply disk = .ok left ∧ after = ⟨left, links⟩ := by
  rw [apply_of_misses h] at happly
  cases hstep : step.apply disk with
  | error fault =>
    rw [hstep] at happly
    cases happly
  | ok left =>
    rw [hstep] at happly
    exact ⟨left, rfl, (Except.ok.inj happly).symm⟩

/-- **Steps that meet no link do what they do without links**, however far they come. -/
theorem perform_of_misses {steps : List Disk.Step} (h : ∀ step ∈ steps, Misses links step)
    (disk : Disk) :
    perform ⟨disk, links⟩ steps = ((disk.perform steps).1, ⟨(disk.perform steps).2, links⟩) := by
  induction steps generalizing disk with
  | nil => rfl
  | cons step rest ih =>
    obtain ⟨hstep, hrest⟩ := List.forall_mem_cons.mp h
    rw [perform, Disk.perform, apply_of_misses hstep]
    cases step.apply disk with
    | error fault => rfl
    | ok after => exact ih hrest after

/-- **Steps that meet no link stop where they stop without links.** -/
theorem stops_of_misses {steps : List Disk.Step} (h : ∀ step ∈ steps, Misses links step)
    {found : Linked} (hstops : Stops ⟨disk, links⟩ steps found) :
    found.links = links ∧ disk.Stops steps found.disk := by
  generalize hlinked : (⟨disk, links⟩ : Linked) = linked at hstops
  induction hstops generalizing disk with
  | before =>
    subst hlinked
    exact ⟨rfl, .before disk _⟩
  | @within _ _ place _ written _ hwritten happly =>
    subst hlinked
    have hstep : Misses links (.append place written) := (List.forall_mem_cons.mp h).1
    obtain ⟨after, hafter, rfl⟩ := of_apply_eq_ok_of_misses hstep happly
    exact ⟨rfl, .within hwritten hafter⟩
  | behind happly _ ih =>
    subst hlinked
    obtain ⟨hstep, hrest⟩ := List.forall_mem_cons.mp h
    obtain ⟨after, hafter, rfl⟩ := of_apply_eq_ok_of_misses hstep happly
    obtain ⟨hlinks, hbehind⟩ := ih hrest rfl
    exact ⟨hlinks, .behind hafter hbehind⟩

end Linked

end TableStore

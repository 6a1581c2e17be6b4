import Mathlib.Logic.Function.Basic
import TableStore.Engine
import TableStore.Proofs.Table.Shelf

/-!
# Calls on an engine

A service is an open engine with its disk, which answers one call after the other; closing the
engine and opening it again is a call, too. Beside it stands a plainer thing: a shelf for each name,
with the rows of the table of that name if there is one. A call that names a table looks at one
shelf and changes no other, so what becomes of a shelf depends on the calls that name it alone.
-/

namespace TableStore.Engine

/-! ## Services -/

/-- What can be asked of an engine. -/
inductive Call where
  | create (schema : Schema)
  | put (name : String) (item : Item)
  | get (name : String) (key : Value)
  | filter (name : String) (predicate : Predicate)
  | compact (name : String)
  | stats (name : String)
  /-- Flush all tables. -/
  | sync
  /-- Close the engine, and open it again over the same directory. -/
  | reopen (policy : SyncPolicy) (createIfMissing : Bool)

namespace Call

/-- The table that a call names. -/
def table? : Call → Option String
  | create schema => some schema.name
  | put name _ | get name _ | filter name _ | compact name | stats name => some name
  | sync | reopen _ _ => none

/-- Whether a call names a table, or closes and opens the engine. -/
def concerns (name : String) : Call → Bool
  | reopen _ _ => true
  | call => call.table? == some name

end Call

/-- What a call yields. -/
inductive Reply where
  | done
  | item (item : Item)
  | items (items : List Item)
  | compaction (report : Compaction)
  | stats (stats : TableStats)

/-- A reply, or the failure of the call. -/
abbrev Answer := Except Failure Reply

/-- An open engine with its disk. -/
structure Service where
  engine : Engine
  disk : Disk
  /-- The directory from which the engine has been opened. -/
  current : Path

namespace Service

/-- Answers a call. There is no engine any more if it cannot be closed and opened again. -/
def step (service : Service) : Call → Answer × Option Service
  | .create schema =>
    match service.engine.createTable service.disk schema with
    | (outcome, engine, disk) => (outcome.map fun _ ↦ .done, some { service with engine, disk })
  | .put name item =>
    match service.engine.put service.disk name item with
    | (outcome, engine, disk) => (outcome.map fun _ ↦ .done, some { service with engine, disk })
  | .get name key => ((service.engine.get service.disk name key).map .item, some service)
  | .filter name predicate =>
    ((service.engine.filter service.disk name predicate).map .items, some service)
  | .compact name =>
    match service.engine.compact service.disk name with
    | (outcome, engine, disk) => (outcome.map .compaction, some { service with engine, disk })
  | .stats name => ((service.engine.table name).map (.stats ·.stats), some service)
  | .sync =>
    match service.engine.sync service.disk with
    | (outcome, engine) => (outcome.map fun _ ↦ .done, some { service with engine })
  | .reopen policy createIfMissing =>
    match service.engine.sync service.disk with
    | (.error e, _) => (.error e, none)
    | (.ok (), engine) =>
      match openAt service.disk service.current
          { engine.config with createIfMissing, syncPolicy := policy } with
      | (.error e, _) => (.error e, none)
      | (.ok engine, disk) => (.ok .done, some { service with engine, disk })

/-- Answers calls one after the other. Returns the calls with their answers and, unless the engine
has gone before, where the service has come to. -/
def run (service : Service) : List Call → List (Call × Answer) × Option Service
  | [] => ([], some service)
  | call :: rest =>
    match service.step call with
    | (answer, none) => ([(call, answer)], none)
    | (answer, some after) =>
      match run after rest with
      | (answered, last) => ((call, answer) :: answered, last)

theorem run_cons {service after : Service} {call : Call} {answer : Answer}
    (h : service.step call = (answer, some after)) (rest : List Call) :
    service.run (call :: rest) = ((call, answer) :: (after.run rest).1, (after.run rest).2) := by
  rw [run, h]

end Service

/-! ## Shelves -/

/-- What a call answers that names the table in a directory, and the shelf it leaves. -/
def Call.serve (directory : Place) (shelf? : Option Shelf) : Call → Answer × Option Shelf
  | .create schema =>
    match schema.validate, shelf? with
    | .error e, _ => (.error e, shelf?)
    | .ok (), some shelf => (.error (.tableExists schema.name), some shelf)
    | .ok (), none =>
      match Shelf.create directory schema with
      | (outcome, shelf?) => (outcome.map fun _ ↦ .done, shelf?)
  | .put name item =>
    match shelf? with
    | none => (.error (.noTable name), none)
    | some shelf =>
      match shelf.put item with
      | (outcome, shelf) => (outcome.map fun _ ↦ .done, some shelf)
  | .get name key =>
    match shelf? with
    | none => (.error (.noTable name), none)
    | some shelf => ((shelf.get key).map .item, some shelf)
  | .filter name predicate =>
    match shelf? with
    | none => (.error (.noTable name), none)
    | some shelf => ((shelf.filter predicate).map .items, some shelf)
  | .compact name =>
    match shelf? with
    | none => (.error (.noTable name), none)
    | some shelf =>
      match shelf.compact directory with
      | (outcome, shelf) => (outcome.map .compaction, some shelf)
  | .stats name =>
    match shelf? with
    | none => (.error (.noTable name), none)
    | some shelf => (.ok (.stats shelf.stats), some shelf)
  | .sync | .reopen _ _ => (.ok .done, shelf?)

/-- The shelf of each name, if there is one. -/
abbrev Shelves := String → Option Shelf

namespace Shelves

variable {shelves others : Shelves} {root : Place} {name : String}

/-- What a call answers, and the shelves it leaves. -/
def step (root : Place) (shelves : Shelves) (call : Call) : Answer × Shelves :=
  match call.table? with
  | none => (.ok .done, shelves)
  | some name =>
    match call.serve (root.enter name) (shelves name) with
    | (answer, shelf?) => (answer, Function.update shelves name shelf?)

/-- Calls with their answers, one after the other, and the shelves at the end. -/
def run (root : Place) (shelves : Shelves) : List Call → List (Call × Answer) × Shelves
  | [] => ([], shelves)
  | call :: rest =>
    match run root (shelves.step root call).2 rest with
    | (answered, last) => ((call, (shelves.step root call).1) :: answered, last)

theorem run_cons (root : Place) (shelves : Shelves) (call : Call) (rest : List Call) :
    shelves.run root (call :: rest) =
      ((call, (shelves.step root call).1) :: ((shelves.step root call).2.run root rest).1,
        ((shelves.step root call).2.run root rest).2) := rfl

/-! ## One shelf among others -/

theorem step_of_table? {call : Call} (h : call.table? = some name) (root : Place)
    (shelves : Shelves) :
    shelves.step root call =
      ((call.serve (root.enter name) (shelves name)).1,
        Function.update shelves name (call.serve (root.enter name) (shelves name)).2) := by
  rw [step, h]

theorem step_of_none {call : Call} (h : call.table? = none) (root : Place) (shelves : Shelves) :
    shelves.step root call = (.ok .done, shelves) := by
  rw [step, h]

/-- A call that concerns a name answers the same on the same shelf, whatever the others are, and
leaves the same there. -/
theorem step_of_concerns (hsame : shelves name = others name) {call : Call}
    (hconcerns : call.concerns name = true) :
    (shelves.step root call).1 = (others.step root call).1 ∧
      (shelves.step root call).2 name = (others.step root call).2 name := by
  by_cases hnone : call.table? = none
  · rw [step_of_none hnone, step_of_none hnone]
    exact ⟨rfl, hsame⟩
  · have htable : call.table? = some name := by
      cases call with
      | sync => exact absurd rfl hnone
      | reopen policy createIfMissing => exact absurd rfl hnone
      | _ => exact beq_iff_eq.mp hconcerns
    rw [step_of_table? htable, step_of_table? htable, hsame]
    dsimp only
    rw [Function.update_self, Function.update_self]
    exact ⟨rfl, rfl⟩

/-- A call that does not concern a name leaves its shelf alone. -/
theorem step_of_not_concerns {call : Call} (hconcerns : call.concerns name = false) (root : Place)
    (shelves : Shelves) : (shelves.step root call).2 name = shelves name := by
  cases htable : call.table? with
  | none => rw [step_of_none htable]
  | some other =>
    have hne : name ≠ other := by
      rintro rfl
      cases call with
      | reopen policy createIfMissing => cases htable
      | _ => exact absurd htable (beq_eq_false_iff_ne.mp hconcerns)
    rw [step_of_table? htable]
    exact Function.update_of_ne hne _ _

/-- **The calls that concern a name are answered as if there were no others.** -/
theorem filter_run (hsame : shelves name = others name) (calls : List Call) :
    (shelves.run root calls).1.filter (fun entry ↦ entry.1.concerns name) =
      (others.run root (calls.filter (·.concerns name))).1 := by
  induction calls generalizing shelves others with
  | nil => rfl
  | cons call rest ih =>
    by_cases hconcerns : call.concerns name = true
    · obtain ⟨hanswer, hleft⟩ := step_of_concerns hsame hconcerns
      calc
        _ = (call, (shelves.step root call).1) ::
              ((shelves.step root call).2.run root rest).1.filter
                (fun entry ↦ entry.1.concerns name) := List.filter_cons_of_pos hconcerns
        _ = (call, (others.step root call).1) ::
              ((others.step root call).2.run root (rest.filter (·.concerns name))).1 := by
          rw [hanswer, ih hleft]
        _ = _ := by
          rw [List.filter_cons_of_pos hconcerns]
          rfl
    · have hother := step_of_not_concerns (Bool.eq_false_iff.mpr hconcerns) root shelves
      calc
        _ = ((shelves.step root call).2.run root rest).1.filter
              (fun entry ↦ entry.1.concerns name) := List.filter_cons_of_neg hconcerns
        _ = (others.run root (rest.filter (·.concerns name))).1 := ih (hother.trans hsame)
        _ = _ := by rw [List.filter_cons_of_neg hconcerns]

/-! ## Where the tables are -/

/-- Of where a table is, only the lengths of the texts of its files play a part. -/
theorem serve_congr {directory other : Place}
    (hlength : ∀ file, (directory.enter file).length = (other.enter file).length)
    (shelf? : Option Shelf) (call : Call) :
    call.serve directory shelf? = call.serve other shelf? := by
  have hcreate : ∀ schema, Shelf.create directory schema = Shelf.create other schema := by
    intro schema
    have hsame : (Table.schemaFile directory).length = (Table.schemaFile other).length := hlength _
    rw [Shelf.create, Shelf.create, hsame]
  have hcompact : ∀ shelf : Shelf, shelf.compact directory = shelf.compact other := by
    intro shelf
    have hsame : (Table.compactFile directory).length = (Table.compactFile other).length :=
      hlength _
    rw [Shelf.compact, Shelf.compact, hsame]
  cases call with
  | create schema => simp only [Call.serve, hcreate]
  | compact name => simp only [Call.serve, hcompact]
  | _ => rfl

theorem run_congr {other : Place}
    (hlength : ∀ name file,
      ((root.enter name).enter file).length = ((other.enter name).enter file).length)
    (shelves : Shelves) (calls : List Call) :
    shelves.run root calls = shelves.run other calls := by
  induction calls generalizing shelves with
  | nil => rfl
  | cons call rest ih =>
    have hstep : shelves.step root call = shelves.step other call := by
      cases htable : call.table? with
      | none => rw [step_of_none htable, step_of_none htable]
      | some name => rw [step_of_table? htable, step_of_table? htable, serve_congr (hlength name)]
    rw [run_cons, run_cons, hstep, ih]

/-! ## Answers -/

/-- Every call is answered. -/
theorem map_fst_run (root : Place) (shelves : Shelves) (calls : List Call) :
    (shelves.run root calls).1.map (·.1) = calls := by
  induction calls generalizing shelves with
  | nil => rfl
  | cons call rest ih => rw [run_cons, List.map_cons, ih]

/-- A call that names no table succeeds. -/
theorem answer_of_mem_run {call : Call} {answer : Answer} (hcall : call.table? = none)
    {calls : List Call} (h : (call, answer) ∈ (shelves.run root calls).1) :
    answer = .ok .done := by
  induction calls generalizing shelves with
  | nil => cases h
  | cons first rest ih =>
    rw [run_cons] at h
    rcases List.mem_cons.mp h with heq | hrest
    · obtain ⟨rfl, rfl⟩ := Prod.mk.injEq .. ▸ heq
      rw [step_of_none hcall]
    · exact ih hrest

/-! ## Which shelves there are -/

/-- A shelf is there if it was there before, or has just been put up. -/
theorem isSome_serve (directory : Place) (shelf? : Option Shelf) (call : Call) :
    (call.serve directory shelf?).2.isSome = true ↔
      shelf?.isSome = true ∨
        ∃ schema, call = .create schema ∧ (call.serve directory shelf?).1 = .ok .done := by
  cases shelf? with
  | some shelf =>
    have hstays : (call.serve directory (some shelf)).2.isSome = true := by
      cases call with
      | create schema =>
        dsimp only [Call.serve]
        cases schema.validate <;> rfl
      | _ => rfl
    exact ⟨fun _ ↦ .inl rfl, fun _ ↦ hstays⟩
  | none =>
    cases call with
    | create schema =>
      dsimp only [Call.serve]
      cases schema.validate with
      | error e => simp
      | ok _ =>
        dsimp only [Shelf.create]
        split
        · simp [Except.map]
        · cases RecordFormat.ofSchema schema with
          | error e => simp [Except.map]
          | ok format => simp [Except.map]
    | _ => simp [Call.serve]

theorem isSome_step (root : Place) (shelves : Shelves) (call : Call) (name : String) :
    ((shelves.step root call).2 name).isSome = true ↔
      (shelves name).isSome = true ∨
        ∃ schema, schema.name = name ∧ call = .create schema ∧
          (shelves.step root call).1 = .ok .done := by
  cases htable : call.table? with
  | none =>
    rw [step_of_none htable]
    constructor
    · exact .inl
    · rintro (hsome | ⟨schema, _, rfl, _⟩)
      · exact hsome
      · cases htable
  | some other =>
    rw [step_of_table? htable]
    dsimp only
    by_cases hname : name = other
    · subst hname
      rw [Function.update_self, isSome_serve]
      refine or_congr_right (exists_congr fun schema ↦ ?_)
      constructor
      · rintro ⟨rfl, hdone⟩
        exact ⟨Option.some.inj htable, rfl, hdone⟩
      · exact And.right
    · rw [Function.update_of_ne hname]
      constructor
      · exact .inl
      · rintro (hsome | ⟨schema, rfl, rfl, _⟩)
        · exact hsome
        · exact absurd (Option.some.inj htable) hname

/-- **The shelves there are in the end are those there were and those that have been put up.** -/
theorem isSome_run (calls : List Call) :
    ((shelves.run root calls).2 name).isSome = true ↔
      (shelves name).isSome = true ∨
        ∃ schema, schema.name = name ∧
          (.create schema, .ok .done) ∈ (shelves.run root calls).1 := by
  induction calls generalizing shelves with
  | nil => simp [run]
  | cons call rest ih =>
    calc
      ((shelves.run root (call :: rest)).2 name).isSome = true ↔
          (((shelves.step root call).2.run root rest).2 name).isSome = true := Iff.rfl
      _ ↔ ((shelves name).isSome = true ∨
            ∃ schema, schema.name = name ∧ call = .create schema ∧
              (shelves.step root call).1 = .ok .done) ∨
            ∃ schema, schema.name = name ∧
              (.create schema, .ok .done) ∈ ((shelves.step root call).2.run root rest).1 := by
        rw [ih, isSome_step]
      _ ↔ (shelves name).isSome = true ∨
            ∃ schema, schema.name = name ∧
              (.create schema, .ok .done) ∈ (shelves.run root (call :: rest)).1 := by
        rw [or_assoc, ← exists_or]
        refine or_congr_right (exists_congr fun schema ↦ ?_)
        rw [← and_or_left, run_cons, List.mem_cons, Prod.mk.injEq]
        exact and_congr_right fun _ ↦ or_congr_left (and_congr eq_comm eq_comm)

end Shelves

end TableStore.Engine

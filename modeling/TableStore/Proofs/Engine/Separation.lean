import TableStore.Proofs.Engine.Houses

/-!
# Tables are independent of each other

An engine opened over a directory with nothing in it houses the shelves that have been put up since,
whatever it is asked and however often it is closed and opened. So the answers about a table are
those that it would give if there were no others, and none of its files is in the directory of
another one.
-/

namespace TableStore.Engine

variable {root : Place}

/-- A data directory before any table has been created: it has just been made, or is empty. -/
structure IsFresh (disk : Disk) (current : Path) (config : Config) (prepared : Disk)
    (root : Place) : Prop where
  prepare : prepareRoot disk (Route.ofText current config.dataDirectory) config =
    (.ok (), prepared)
  isEmpty : IsEmptyAt prepared (Route.ofText current config.dataDirectory) root

/-- An engine opens over a fresh data directory, and has no tables. -/
theorem IsFresh.openAt {disk prepared : Disk} {current : Path} {config : Config}
    (h : IsFresh disk current config prepared root) :
    ∃ engine, Engine.openAt disk current config = (.ok engine, prepared) ∧
      engine.config = config ∧
      Houses prepared (Route.ofText current config.dataDirectory) root
        ⟨engine, prepared, current⟩ fun _ ↦ none := by
  have hempty : Houses prepared (Route.ofText current config.dataDirectory) root
      ⟨⟨config, root, ∅⟩, prepared, current⟩ fun _ ↦ none := by
    refine ⟨rfl, rfl, fun _ _ ↦ rfl, ?_⟩
    intro name
    rw [Std.ExtTreeMap.getElem?_empty]
    refine .nothing fun path hwithin ↦ h.isEmpty.empty path ?_ ?_
    · exact (List.prefix_append _ _).trans hwithin
    · rintro rfl
      have hlength := hwithin.length_le
      rw [Place.path_enter, List.length_append, List.length_singleton] at hlength
      omega
  exact hempty.openAt h.isEmpty rfl h.prepare

/-- Whether a service has just been opened over a fresh data directory that goes by a text. -/
structure Service.IsNew (service : Service) (text : String) : Prop where
  opened : ∃ disk config, config.dataDirectory = text ∧
    IsFresh disk service.current config service.disk service.engine.root ∧
    Engine.openAt disk service.current config = (.ok service.engine, service.disk)

/-- What it means that tables are independent: how the answers to calls, and the service that the
calls lead to, belong together. -/
structure Separates (start : Service) (calls : List Call) (answered : List (Call × Answer))
    (last : Service) : Prop where
  /-- Every call has been answered. -/
  complete : answered.map (·.1) = calls
  /-- The calls that name a table are answered as they are, without all the others, over any fresh
  data directory of that name. -/
  alone : ∀ name (other : Service), other.IsNew start.engine.config.dataDirectory →
    answered.filter (fun entry ↦ entry.1.concerns name) =
      (other.run (calls.filter (·.concerns name))).1
  /-- The engine has opened whenever it has been closed. -/
  opens : ∀ policy createIfMissing answer,
    (.reopen policy createIfMissing, answer) ∈ answered → answer = .ok .done
  /-- The names of the tables are listed in order. -/
  sorted : last.engine.names.Pairwise fun a b ↦ Utf8.order a b = .lt
  /-- There is a table of a name if one has been created. -/
  created : ∀ name, name ∈ last.engine.names ↔
    ∃ schema, schema.name = name ∧ (.create schema, .ok .done) ∈ answered
  /-- The directory of a table is the same at any time. -/
  place : last.engine.root = start.engine.root
  /-- One more call that names a table changes nothing beside the directory of that table. -/
  beside : ∀ call name, call.table? = some name → ∃ answer after,
    last.step call = (answer, some after) ∧
      ∀ path, ¬ (start.engine.root.enter name).path <+: path →
        after.disk.node? path = last.disk.node? path

/-- A service that is new has no tables. -/
theorem Service.IsNew.houses {service : Service} {text : String} (h : service.IsNew text) :
    IsEmptyAt service.disk (Route.ofText service.current text) service.engine.root ∧
      Houses service.disk (Route.ofText service.current text) service.engine.root service
        fun _ ↦ none := by
  obtain ⟨disk, config, rfl, hfresh, hopened⟩ := h.opened
  obtain ⟨engine, hopen, _, hhouses⟩ := hfresh.openAt
  rw [hopened] at hopen
  cases hopen
  exact ⟨hfresh.isEmpty, hhouses⟩

/-- The texts of the files of tables have the same lengths in all data directories of one name. -/
theorem IsEmptyAt.length_eq {left right : Disk} {here there : Path} {other : Place} {text : String}
    (hleft : IsEmptyAt left (Route.ofText here text) root)
    (hright : IsEmptyAt right (Route.ofText there text) other) (name file : String) :
    ((root.enter name).enter file).length = ((other.enter name).enter file).length := by
  have hroot := (Disk.locate_eq_ok_iff.mp hleft.locate).2.2
  have hother := (Disk.locate_eq_ok_iff.mp hright.locate).2.2
  rw [Place.enter, Place.enter, Place.enter, Place.enter, hroot, hother]
  rfl

/-- **Tables are independent of each other**, whatever is done with an engine that has been opened
over a fresh data directory. -/
theorem separates_of_isFresh {disk prepared : Disk} {current : Path} {config : Config}
    (h : IsFresh disk current config prepared root) :
    ∃ engine, Engine.openAt disk current config = (.ok engine, prepared) ∧
      engine.root = root ∧ ∀ calls, ∃ answered last,
        Service.run ⟨engine, prepared, current⟩ calls = (answered, some last) ∧
          Separates ⟨engine, prepared, current⟩ calls answered last := by
  obtain ⟨engine, hopen, hconfig, hhouses⟩ := h.openAt
  refine ⟨engine, hopen, hhouses.place, ?_⟩
  intro calls
  obtain ⟨last, hrun, hlast⟩ := hhouses.run h.isEmpty calls
  refine ⟨_, last, hrun, Shelves.map_fst_run _ _ _, ?_, ?_, ?_, ?_, ?_, ?_⟩
  · intro name other hother
    dsimp only at hother
    rw [hconfig] at hother
    obtain ⟨hempty, hnone⟩ := hother.houses
    obtain ⟨_, hfiltered, _⟩ := hnone.run hempty (calls.filter (·.concerns name))
    rw [hfiltered, ← Shelves.run_congr (h.isEmpty.length_eq hempty)]
    exact Shelves.filter_run rfl calls
  · intro policy createIfMissing answer hanswer
    exact Shelves.answer_of_mem_run rfl hanswer
  · exact Std.ExtTreeMap.ordered_keys
  · intro name
    rw [hlast.mem_names, Shelves.isSome_run]
    exact or_iff_right Bool.false_ne_true
  · exact hlast.place.trans hhouses.place.symm
  · intro call name hcall
    obtain ⟨after, hstep, _, hspares⟩ := hlast.step h.isEmpty call
    refine ⟨_, after, hstep, ?_⟩
    rw [hhouses.place, ← hlast.place]
    exact (hspares name hcall).beside

/-- Calls on two tables, closed and opened in between. -/
def ordersAndEvents : List Call :=
  [.create RecordFormat.ordersSchema, .create { RecordFormat.ordersSchema with name := "events" },
    .put "orders" RecordFormat.orderItem, .put "events" RecordFormat.orderItem, .sync,
    .reopen .everyRecord false, .compact "events", .get "orders" (.integer (-7))]

/-- The data directory is made when the engine is opened for the first time. -/
theorem separates_of_isFresh_orders :
    IsFresh Disk.empty [] ⟨"data", true, .never⟩ (Disk.empty.set ["data"] .directory)
        ⟨["data"], Route.ofText [] "data"⟩ ∧
      ∃ engine answered last,
        Engine.openAt Disk.empty [] ⟨"data", true, .never⟩ =
            (.ok engine, Disk.empty.set ["data"] .directory) ∧
          Service.run ⟨engine, Disk.empty.set ["data"] .directory, []⟩ ordersAndEvents =
            (answered, some last) ∧
          Separates ⟨engine, Disk.empty.set ["data"] .directory, []⟩ ordersAndEvents answered
            last := by
  have hpath : (["data"] : Path) ≠ [] := List.cons_ne_nil _ _
  have hlocate : (Disk.empty.set ["data"] .directory).locate (Route.ofText [] "data") =
      .ok ⟨["data"], Route.ofText [] "data"⟩ := by rfl
  have hempty : ∀ path, (["data"] : Path) <+: path → path ≠ ["data"] →
      (Disk.empty.set ["data"] .directory).node? path = none := by
    intro path hwithin hbelow
    have hroot : path ≠ [] := by
      rintro rfl
      exact hpath (List.prefix_nil.mp hwithin)
    rw [Disk.node?_set hpath, if_neg hbelow.symm]
    simp [Disk.node?, hroot, Disk.empty]
  have hfresh : IsFresh Disk.empty [] ⟨"data", true, .never⟩
      (Disk.empty.set ["data"] .directory) ⟨["data"], Route.ofText [] "data"⟩ := by
    refine ⟨rfl, hlocate, ?_, hempty⟩
    exact (Disk.node?_set hpath _ _ _).trans (if_pos rfl)
  obtain ⟨engine, hopen, _, hcalls⟩ := separates_of_isFresh hfresh
  obtain ⟨answered, last, hrun, hseparates⟩ := hcalls ordersAndEvents
  exact ⟨hfresh, engine, answered, last, hopen, hrun, hseparates⟩

end TableStore.Engine

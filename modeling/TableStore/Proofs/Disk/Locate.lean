import TableStore.Proofs.Disk.Basic

/-!
# Routes that keep leading to the same place

Following a route takes nothing from the disk but the directories on the way. So a route leads where
it led before as long as these are there, and it can be prolonged by a name once it has reached a
directory. What is in a directory are the names under which something stands in it.
-/

namespace TableStore

namespace Route

variable {route : Route}

/-- Whether a name leads to an entry of the directory in which it is followed. -/
def IsEntry (name : String) : Prop :=
  isStill name = false ∧ name ≠ ".."

/-- The parts of a route that is prolonged, without a slash at the end. -/
theorem join_parts (route : Route) (name : String) :
    ∃ parts, (route.join name).parts = parts ++ [name] ∧
      (route.parts = parts ∨ route.parts = parts ++ [""]) := by
  unfold join
  dsimp only
  split
  · next hlast =>
    obtain ⟨parts, hparts⟩ := List.getLast?_eq_some_iff.mp hlast
    refine ⟨route.parts.dropLast, rfl, .inr ?_⟩
    rw [hparts, List.dropLast_concat]
  · exact ⟨route.parts, rfl, .inl rfl⟩

theorem utf8ByteSize_le_length_join (route : Route) (name : String) :
    name.utf8ByteSize ≤ (route.join name).length := by
  obtain ⟨parts, hparts, _⟩ := join_parts route name
  rw [length, hparts, List.map_append, List.sum_append]
  simp only [List.map_cons, List.map_nil, List.sum_cons, List.sum_nil]
  omega

/-- What is written behind a name is a slash and the next name. -/
theorem length_join_join {name : String} (hname : name ≠ "") (route : Route) (other : String) :
    ((route.join name).join other).length =
      (route.join name).length + 1 + other.utf8ByteSize := by
  obtain ⟨parts, hparts, _⟩ := join_parts route name
  have hjoined : ((route.join name).join other).parts = parts ++ [name] ++ [other] := by
    have hlast : ¬ (parts ++ [name]).getLast? = some "" := by
      rw [List.getLast?_concat]
      exact fun heq ↦ hname (Option.some.inj heq)
    rw [join, hparts]
    simp only [hlast, if_false]
  have hlead : ((route.join name).join other).lead = (route.join name).lead := rfl
  rw [length, length, hjoined, hparts, hlead]
  simp only [List.map_append, List.map_cons, List.map_nil, List.sum_append, List.sum_cons,
    List.sum_nil, List.length_append, List.length_cons, List.length_nil]
  omega

/-- Names of different lengths make as much difference behind any route. -/
theorem length_join_add (route : Route) (name other : String) :
    (route.join name).length + other.utf8ByteSize =
      (route.join other).length + name.utf8ByteSize := by
  simp only [length, join, List.map_append, List.map_cons, List.map_nil, List.sum_append,
    List.sum_cons, List.sum_nil, List.length_append, List.length_cons, List.length_nil]
  omega

theorem endsInDot_join {name : String} (hname : IsEntry name) :
    (route.join name).endsInDot = false := by
  obtain ⟨parts, hparts, _⟩ := join_parts route name
  have hempty : ¬ name = "" := by
    rintro rfl
    cases hname.1
  have hdot : ¬ name = "." := by
    rintro rfl
    cases hname.1
  rw [endsInDot, hparts, trimSlashes, List.reverse_append]
  simp [hempty, hdot]

/-- A name alone is cut off to the empty route. -/
theorem holder_of_alone {name : String} (hlead : route.lead = 0) (hparts : route.parts = [name]) :
    route.holder = { route with parts := [""] } := by
  have halone : (trimStill [name]).dropLast = [] := by
    cases hstill : isStill name <;> simp [trimStill, hstill]
  rw [holder, hparts, if_pos ⟨hlead, halone⟩]

/-! ## Slashes at the end -/

/-- Behind a slash at the end a name is written without another one. -/
theorem length_join_of_slash {route : Route} (h : route.parts.getLast? = some "") (name : String) :
    (route.join name).length = route.length + name.utf8ByteSize := by
  obtain ⟨parts, hparts⟩ := List.getLast?_eq_some_iff.mp h
  have hjoined : (route.join name).parts = parts ++ [name] := by
    rw [join, if_pos h, hparts, List.dropLast_concat]
  have hlead : (route.join name).lead = route.lead := rfl
  rw [length, length, hjoined, hparts, hlead]
  simp only [List.map_append, List.map_cons, List.map_nil, List.sum_append, List.sum_cons,
    List.sum_nil, List.length_append, List.length_cons, List.length_nil, String.utf8ByteSize_empty]
  omega

/-- A text without slashes is one piece, and every slash behind it begins an empty one. -/
theorem splitAtSlashes_append_replicate {piece : List Char} (h : '/' ∉ piece) (count : Nat) :
    splitAtSlashes (piece ++ List.replicate count '/') = piece :: List.replicate count [] := by
  induction piece with
  | nil =>
    rw [List.nil_append]
    induction count with
    | zero => rfl
    | succ count ih => rw [List.replicate_succ, splitAtSlashes, if_pos rfl, ih, List.replicate_succ]
  | cons c rest ih =>
    obtain ⟨hc, hrest⟩ := not_or.mp (mt List.mem_cons.mpr h)
    rw [List.cons_append, splitAtSlashes, if_neg (Ne.symm hc), ih hrest]

/-- The text of a name with slashes behind it. -/
def slashed (name : String) (count : Nat) : String :=
  String.ofList (name.toList ++ List.replicate count '/')

/-- The route to a name with slashes behind it. -/
theorem ofText_slashed {name : String} (hempty : name ≠ "") (hslash : '/' ∉ name.toList)
    (current : Path) (count : Nat) :
    ofText current (slashed name count) = ⟨current, 0, name :: List.replicate count ""⟩ := by
  have hhead : (name.toList ++ List.replicate count '/').head? ≠ some '/' := by
    cases hchars : name.toList with
    | nil => exact absurd (String.toList_eq_nil_iff.mp hchars) hempty
    | cons c rest =>
      rw [List.cons_append, List.head?_cons]
      intro heq
      rw [hchars, Option.some.inj heq] at hslash
      exact hslash List.mem_cons_self
  rw [ofText, slashed, String.toList_ofList, if_neg hhead, splitAtSlashes_append_replicate hslash,
    List.map_cons, String.ofList_toList, List.map_replicate]

/-- Every slash behind a name makes the text one byte longer. -/
theorem length_slashed (current : Path) (name : String) (count : Nat) :
    length ⟨current, 0, name :: List.replicate count ""⟩ = name.utf8ByteSize + count := by
  simp [length]

end Route

namespace Place

/-- The text of a name in a directory is as long whether or not the directory has been reached. -/
theorem length_onward (directory : Place) (name : String) :
    (directory.onward name).length = (directory.enter name).length := by
  have hle := Route.utf8ByteSize_le_length_join directory.route name
  rw [length, enter, onward, Route.length]
  simp only [List.map_cons, List.map_nil, List.sum_cons, List.sum_nil, List.length_cons,
    List.length_nil]
  omega

/-- What is written in front of a name and the name make up its text. -/
theorem lead_onward_add (directory : Place) (name : String) :
    (directory.onward name).lead + name.utf8ByteSize = (directory.enter name).length := by
  rw [← length_onward]
  simp [Route.length, onward]

theorem length_enter_enter {name : String} (hname : name ≠ "") (root : Place) (file : String) :
    ((root.enter name).enter file).length =
      (root.enter name).length + 1 + file.utf8ByteSize :=
  Route.length_join_join hname root.route file

/-- The name of a directory is written in front of what is in it. -/
theorem lead_onward_enter {name : String} (hname : name ≠ "") (root : Place) (file : String) :
    ((root.enter name).onward file).lead ≠ 0 := by
  have hlength := lead_onward_add (root.enter name) file
  rw [length_enter_enter hname] at hlength
  omega

/-- Of two names in a directory the longer one has the longer text. -/
theorem length_enter_le (directory : Place) {name other : String}
    (h : name.utf8ByteSize ≤ other.utf8ByteSize) :
    (directory.enter name).length ≤ (directory.enter other).length := by
  have hadd := Route.length_join_add directory.route name other
  rw [length, length, enter, enter]
  dsimp only
  omega

end Place

namespace Disk

variable {disk other : Disk} {here path : Path} {parts : List String} {route : Route}

/-! ## Following -/

/-- **A route leads where it led as long as the directories are there.** -/
theorem follow_of_directories
    (h : ∀ path, disk.node? path = some .directory → other.node? path = some .directory)
    (hfollow : disk.follow here parts = .ok path) : other.follow here parts = .ok path := by
  induction parts generalizing here with
  | nil => exact hfollow
  | cons part rest ih =>
    rw [follow] at hfollow ⊢
    by_cases hstill : Route.isStill part = true
    · rw [if_pos hstill] at hfollow ⊢
      exact ih hfollow
    · rw [if_neg hstill] at hfollow ⊢
      by_cases hback : part = ".."
      · rw [if_pos hback] at hfollow ⊢
        exact ih hfollow
      · rw [if_neg hback] at hfollow ⊢
        by_cases hlast : rest.isEmpty = true
        · rw [if_pos hlast] at hfollow ⊢
          exact hfollow
        · rw [if_neg hlast] at hfollow ⊢
          split at hfollow
          · next hdirectory =>
            rw [h _ hdirectory]
            exact ih hfollow
          · cases hfollow
          · cases hfollow

/-- A slash at the end does not change where a route leads. -/
theorem follow_of_follow_slash (h : disk.follow here (parts ++ [""]) = .ok path) :
    disk.follow here parts = .ok path := by
  induction parts generalizing here with
  | nil => exact h
  | cons part rest ih =>
    rw [List.cons_append, follow] at h
    rw [follow]
    by_cases hstill : Route.isStill part = true
    · rw [if_pos hstill] at h ⊢
      exact ih h
    · rw [if_neg hstill] at h ⊢
      by_cases hback : part = ".."
      · rw [if_pos hback] at h ⊢
        exact ih h
      · rw [if_neg hback] at h ⊢
        have hmore : ¬ (rest ++ [""]).isEmpty = true := by simp
        rw [if_neg hmore] at h
        split at h
        · next hdirectory =>
          have hrest := ih h
          by_cases hlast : rest.isEmpty = true
          · rw [if_pos hlast]
            rw [List.isEmpty_iff.mp hlast] at hrest
            exact hrest
          · rw [if_neg hlast]
            exact hrest
        · cases h
        · cases h

/-- **A route that has reached a directory goes on to any name in it.** -/
theorem follow_concat {name : String} (hname : Route.IsEntry name)
    (hdirectory : disk.node? path = some .directory) (h : disk.follow here parts = .ok path) :
    disk.follow here (parts ++ [name]) = .ok (path ++ [name]) := by
  induction parts generalizing here with
  | nil =>
    cases h
    rw [List.nil_append, follow_name hname.1 hname.2]
  | cons part rest ih =>
    rw [follow] at h
    rw [List.cons_append, follow]
    by_cases hstill : Route.isStill part = true
    · rw [if_pos hstill] at h ⊢
      exact ih h
    · rw [if_neg hstill] at h ⊢
      by_cases hback : part = ".."
      · rw [if_pos hback] at h ⊢
        exact ih h
      · rw [if_neg hback] at h ⊢
        have hmore : ¬ (rest ++ [name]).isEmpty = true := by simp
        rw [if_neg hmore]
        by_cases hlast : rest.isEmpty = true
        · rw [if_pos hlast] at h
          cases h
          rw [hdirectory, List.isEmpty_iff.mp hlast]
          dsimp only
          rw [List.nil_append, follow_name hname.1 hname.2]
        · rw [if_neg hlast] at h
          split at h
          · exact ih h
          · cases h
          · cases h

/-- A slash stays where it is. -/
theorem follow_slashes (disk : Disk) (here : Path) (count : Nat) :
    disk.follow here (List.replicate count "") = .ok here := by
  induction count with
  | zero => rfl
  | succ count ih => rw [List.replicate_succ, follow, if_pos (by decide), ih]

/-! ## Locating -/

/-- What it takes for a route to lead to a place. -/
theorem locate_eq_ok_iff {place : Place} :
    disk.locate route = .ok place ↔
      routeFault? route = none ∧ disk.follow route.start route.parts = .ok place.path ∧
        place.route = route := by
  unfold locate
  cases routeFault? route with
  | some fault => simp
  | none =>
    cases disk.follow route.start route.parts with
    | error fault => simp
    | ok path =>
      obtain ⟨placePath, placeRoute⟩ := place
      simp [eq_comm]

theorem locate_of_directories {place : Place}
    (h : ∀ path, disk.node? path = some .directory → other.node? path = some .directory)
    (hlocate : disk.locate route = .ok place) : other.locate route = .ok place := by
  obtain ⟨hfault, hfollow, hroute⟩ := locate_eq_ok_iff.mp hlocate
  exact locate_eq_ok_iff.mpr ⟨hfault, follow_of_directories h hfollow, hroute⟩

/-- What stands where a route leads can be looked at by it. -/
theorem get?_of_locate {place : Place} {node : Node} (hlocate : disk.locate route = .ok place)
    (hnode : disk.node? place.path = some node) : disk.get? place = some node := by
  obtain ⟨hfault, _, hroute⟩ := locate_eq_ok_iff.mp hlocate
  rw [get?_eq_some_iff, Place.length, hroute]
  exact ⟨length_le_of_routeFault? hfault, hnode⟩

/-- Nothing is wrong with a route if no part has a zero in it, it is not too long, and not empty. -/
theorem routeFault?_eq_none_iff :
    routeFault? route = none ↔
      (∀ part ∈ route.parts, '\x00' ∉ part.toList) ∧ route.length ≤ textLimit ∧
        route.parts ≠ [""] := by
  unfold routeFault?
  by_cases hzero : route.parts.any (·.toList.contains '\x00') = true
  · rw [if_pos hzero]
    simp only [List.any_eq_true, List.contains_iff_mem] at hzero
    obtain ⟨part, hpart, hmem⟩ := hzero
    simp only [reduceCtorEq, false_iff, not_and]
    intro hnone
    exact absurd hmem (hnone part hpart)
  · have hnone : ∀ part ∈ route.parts, '\x00' ∉ part.toList := by
      intro part hpart hmem
      exact hzero (List.any_eq_true.mpr ⟨part, hpart, List.contains_iff_mem.mpr hmem⟩)
    rw [if_neg hzero]
    by_cases hlong : textLimit < route.length
    · simp [hlong, Nat.not_le.mpr hlong]
    · simp [hlong, Nat.not_lt.mp hlong]
      exact fun _ ↦ hnone

/-- The route of one plain name is at fault only if it is too long. -/
theorem routeFault?_name {name : String} (hempty : name ≠ "") (hzero : '\x00' ∉ name.toList)
    (start : Path) (lead : Nat) :
    routeFault? ⟨start, lead, [name]⟩ =
      if textLimit < lead + name.utf8ByteSize then some .nameTooLong else none := by
  have hlength : Route.length ⟨start, lead, [name]⟩ = lead + name.utf8ByteSize := by
    simp [Route.length]
  have hparts : ¬ [name] = [""] := by simpa using hempty
  have hnone : ¬ [name].any (·.toList.contains '\x00') = true := by simpa using hzero
  rw [routeFault?, hlength]
  dsimp only
  rw [if_neg hnone, if_neg hparts]

/-- A name in a directory that a route has reached is reached by the route prolonged. -/
theorem locate_join {directory : Place} {name : String} (hname : Route.IsEntry name)
    (hzero : '\x00' ∉ name.toList) (hdirectory : disk.node? directory.path = some .directory)
    (h : disk.locate route = .ok directory) (hlength : (route.join name).length ≤ textLimit) :
    disk.locate (directory.route.join name) = .ok (directory.enter name) := by
  obtain ⟨hfault, hfollow, hroute⟩ := locate_eq_ok_iff.mp h
  obtain ⟨hparts, _, _⟩ := routeFault?_eq_none_iff.mp hfault
  obtain ⟨parts, hjoined, horiginal⟩ := Route.join_parts route name
  have hbefore : (∀ part ∈ parts, '\x00' ∉ part.toList) ∧
      disk.follow route.start parts = .ok directory.path := by
    rcases horiginal with hsame | hslash
    · exact ⟨hsame ▸ hparts, hsame ▸ hfollow⟩
    · rw [hslash] at hparts hfollow
      exact ⟨fun part hpart ↦ hparts part (by simp [hpart]), follow_of_follow_slash hfollow⟩
  have hempty : name ≠ "" := by
    rintro rfl
    cases hname.1
  rw [hroute, locate_eq_ok_iff, routeFault?_eq_none_iff, hjoined]
  refine ⟨⟨?_, hlength, ?_⟩, ?_, ?_⟩
  · intro part hpart
    rcases List.mem_append.mp hpart with hpart | hpart
    · exact hbefore.1 part hpart
    · rw [List.mem_singleton.mp hpart]
      exact hzero
  · intro heq
    have hlast := congrArg List.getLast? heq
    rw [List.getLast?_concat] at hlast
    exact hempty (Option.some.inj hlast)
  · exact follow_concat hname hdirectory hbefore.2
  · rw [Place.enter, hroute]

/-- A name with slashes behind it leads to the directory of that name, however many they are, as
long as the text is not too long. -/
theorem locate_slashed {current : Path} {name : String} {count : Nat} (hname : Route.IsEntry name)
    (hzero : '\x00' ∉ name.toList) (hdirectory : disk.node? (current ++ [name]) = some .directory)
    (hlength : name.utf8ByteSize + count ≤ textLimit) :
    disk.locate ⟨current, 0, name :: List.replicate count ""⟩ =
      .ok ⟨current ++ [name], ⟨current, 0, name :: List.replicate count ""⟩⟩ := by
  have hempty : name ≠ "" := by
    rintro rfl
    cases hname.1
  rw [locate_eq_ok_iff, routeFault?_eq_none_iff, Route.length_slashed]
  refine ⟨⟨?_, hlength, ?_⟩, ?_, rfl⟩
  · intro part hpart
    rcases List.mem_cons.mp hpart with rfl | hpart
    · exact hzero
    · rw [List.eq_of_mem_replicate hpart]
      exact List.not_mem_nil
  · exact fun heq ↦ hempty (List.cons.inj heq).1
  · cases count with
    | zero => exact follow_name hname.1 hname.2 disk current
    | succ count =>
      have hstill : ¬ Route.isStill name = true := by
        rw [hname.1]
        exact Bool.false_ne_true
      rw [follow, if_neg hstill, if_neg hname.2, if_neg (by simp), hdirectory]
      exact follow_slashes disk _ _

/-! ## Flushing directories -/

/-- A directory to which a route leads can be flushed. -/
theorem flushAt_of_directory {place : Place} (hlocate : disk.locate route = .ok place)
    (hdirectory : disk.node? place.path = some .directory) : disk.flushAt route = .ok () := by
  rw [flushAt, hlocate]
  dsimp only
  rw [find_of_get? (get?_of_locate hlocate hdirectory)]

/-- The directory of a name alone cannot be flushed by the route to it. -/
theorem flushAt_of_alone {name : String} (disk : Disk) (hlead : route.lead = 0)
    (hparts : route.parts = [name]) : disk.flushAt route.holder = .error .notFound := by
  have hfault : routeFault? { route with parts := [""] } = some .notFound := by
    have hlength : Route.length { route with parts := [""] } = 0 := by
      simp [Route.length, hlead]
    rw [routeFault?, hlength]
    rfl
  rw [Route.holder_of_alone hlead hparts, flushAt, locate, hfault]

/-- A directory that has been reached can be flushed behind a name in it, if its own name is written
in front of that. -/
theorem flushAt_onward {directory : Place} {name : String} (hname : Route.IsEntry name)
    (hdirectory : disk.node? directory.path = some .directory)
    (hlead : (directory.onward name).lead ≠ 0)
    (hlength : (directory.onward name).length ≤ textLimit) :
    disk.flushAt (directory.onward name).holder = .ok () := by
  have hparts : Route.trimStill [name] = [name] := by
    simp [Route.trimStill, hname.1]
  have hholder : (directory.onward name).holder =
      ⟨directory.path, (directory.onward name).lead, []⟩ := by
    rw [Route.holder, if_neg (fun h ↦ hlead h.1), Route.parent, Place.onward]
    dsimp only
    rw [hparts]
    rfl
  have hlocate : disk.locate (directory.onward name).holder =
      .ok ⟨directory.path, (directory.onward name).holder⟩ := by
    rw [locate_eq_ok_iff, routeFault?_eq_none_iff, hholder]
    refine ⟨⟨nofun, ?_, nofun⟩, rfl, rfl⟩
    exact Nat.le_trans (by simp [Route.length]; omega) hlength
  exact flushAt_of_directory hlocate hdirectory

/-! ## What is in a directory -/

/-- The entries of a directory are what stands in it. -/
theorem mem_entries_iff {directory : Path} {name : String} {node : Node} :
    (name, node) ∈ disk.entries directory ↔ disk.node? (directory ++ [name]) = some node := by
  have hnode : disk.node? (directory ++ [name]) = disk.nodes[directory ++ [name]]? := by
    rw [node?, if_neg]
    simp
  rw [hnode, entries, List.mem_filterMap]
  constructor
  · rintro ⟨⟨path, found⟩, hmem, hentry⟩
    rw [Std.ExtTreeMap.mem_toList_iff_getElem?_eq_some] at hmem
    dsimp only at hentry
    split at hentry
    · next last hlast =>
      split at hentry
      · next hdirectory =>
        cases hentry
        obtain ⟨before, rfl⟩ := List.getLast?_eq_some_iff.mp hlast
        rw [List.dropLast_concat] at hdirectory
        rw [← hdirectory]
        exact hmem
      · cases hentry
    · cases hentry
  · intro h
    refine ⟨(directory ++ [name], node),
      Std.ExtTreeMap.mem_toList_iff_getElem?_eq_some.mpr h, ?_⟩
    dsimp only
    rw [List.getLast?_concat, List.dropLast_concat]
    exact if_pos rfl

/-- No two entries of a directory have one name. -/
theorem pairwise_entries (disk : Disk) (directory : Path) :
    (disk.entries directory).Pairwise fun entry other ↦ entry.1 ≠ other.1 := by
  refine Std.ExtTreeMap.distinct_keys_toList.filterMap _ ?_
  intro entry other hne found hfound second hsecond hsame
  dsimp only at hfound hsecond
  split at hfound
  · next name hname =>
    split at hfound
    · next hdirectory =>
      split at hsecond
      · next also halso =>
        split at hsecond
        · next hbeside =>
          cases hfound
          cases hsecond
          -- Two entries of one directory under one name are at one path.
          have hcalled : name = also := hsame
          obtain ⟨before, hbefore⟩ := List.getLast?_eq_some_iff.mp hname
          obtain ⟨front, hfront⟩ := List.getLast?_eq_some_iff.mp halso
          rw [hbefore, List.dropLast_concat] at hdirectory
          rw [hfront, List.dropLast_concat] at hbeside
          rw [hbefore, hfront, hdirectory, hbeside, hcalled] at hne
          exact hne Std.compare_self
        · cases hsecond
      · cases hsecond
    · cases hfound
  · cases hfound

/-! ## Removing -/

/-- Below a directory that is emptied nothing is left, and nothing else is taken away. -/
theorem node?_eraseBelow (disk : Disk) (path asked : Path) :
    (disk.eraseBelow path).node? asked =
      if path <+: asked ∧ asked ≠ path then none else disk.node? asked := by
  by_cases hroot : asked = []
  · subst hroot
    have hnot : ¬ (path <+: [] ∧ [] ≠ path) := by
      rintro ⟨hwithin, hne⟩
      exact hne (List.prefix_nil.mp hwithin).symm
    rw [if_neg hnot]
    rfl
  · have hasked : asked.isEmpty = false := by simpa using hroot
    simp only [node?, eraseBelow, hasked, Bool.false_eq_true, if_false,
      Std.ExtTreeMap.getElem?_filter']
    by_cases hbelow : path <+: asked ∧ asked ≠ path
    · rw [if_pos hbelow]
      simp [Option.filter_eq_none_iff, hbelow]
    · rw [if_neg hbelow]
      have hkept : (!(path.isPrefixOf asked && asked != path)) = true := by
        rw [Bool.not_eq_true', Bool.and_eq_false_iff]
        by_cases hwithin : path <+: asked
        · right
          have hsame : asked = path := Decidable.not_not.mp fun hne ↦ hbelow ⟨hwithin, hne⟩
          simp [hsame]
        · left
          exact Bool.eq_false_iff.mpr fun h ↦ hwithin (List.isPrefixOf_iff_prefix.mp h)
      cases disk.nodes[asked]? with
      | none => rfl
      | some node => simp only [Option.filter, hkept, if_true]

/-- A directory is removed with all that is below it, if the route to it does not go through what
is below. -/
theorem removeTreeAt_of_directory {place : Place} (hlocate : disk.locate route = .ok place)
    (hdirectory : disk.get? place = some .directory)
    (hagain : (disk.eraseBelow place.path).locate route = .ok place)
    (hdot : route.endsInDot = false) :
    disk.removeTreeAt route = (.ok (), (disk.eraseBelow place.path).erase place.path) := by
  rw [removeTreeAt, hlocate]
  dsimp only
  rw [find_of_get? hdirectory]
  dsimp only
  rw [hagain]
  dsimp only
  rw [hdot, if_neg Bool.false_ne_true]

end Disk

end TableStore

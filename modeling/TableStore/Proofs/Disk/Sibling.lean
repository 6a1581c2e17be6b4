import TableStore.Proofs.Disk.Locate
import TableStore.Proofs.Disk.Tree

/-!
# The file beside the one to which a route leads

A route that leads to nothing yet ends in a name: were there no name at its end, or two dots, or a
slash behind the name, it would lead to a directory that is there. So a route with another extension
leads to another file of the same directory, unless the file has that extension already. Making
that file takes nothing from the way of the first route, and puts nothing at its end.
-/

namespace TableStore

namespace Route

variable {route : Route} {name extension : String}

/-! ## Extensions -/

/-- The part of a file name behind its last dot. A dot in front does not count. -/
def extensionOf? (name : String) : Option String :=
  let before := ((name.toList.reverse.dropWhile (· ≠ '.')).drop 1).reverse
  if before.isEmpty then none
  else some (String.ofList (name.toList.reverse.takeWhile (· ≠ '.')).reverse)

/-- The extension of the file to which a route leads, if there is a name at its end. -/
def extension? (route : Route) : Option String :=
  match (trimStill route.parts).getLast? with
  | none | some ".." => none
  | some name => extensionOf? name

theorem stem_ne_empty (hname : name ≠ "") : stem name ≠ "" := by
  unfold stem
  dsimp only
  split
  · exact hname
  · next hbefore =>
    intro hempty
    rw [String.ofList_eq_empty_iff] at hempty
    exact hbefore (List.isEmpty_iff.mpr hempty)

/-- A name that consists of its stem, a dot and an extension has this extension. -/
theorem extensionOf?_of_eq (hdot : '.' ∉ extension.toList)
    (h : name = stem name ++ "." ++ extension) : extensionOf? name = some extension := by
  have hname : name ≠ "" := by
    rintro rfl
    have hlength := congrArg String.length h
    rw [String.length_append, String.length_append] at hlength
    have hdotLength : ".".length = 1 := rfl
    have hnothing : "".length = 0 := rfl
    omega
  have hchars : name.toList.reverse =
      extension.toList.reverse ++ '.' :: (stem name).toList.reverse := by
    have hlist := congrArg (fun text ↦ text.toList.reverse) h
    simpa using hlist
  have hplain : ∀ c ∈ extension.toList.reverse, decide (c ≠ '.') = true := by
    intro c hc
    have hne : c ≠ '.' := by
      rintro rfl
      exact hdot (List.mem_reverse.mp hc)
    exact decide_eq_true hne
  have hbehind : name.toList.reverse.takeWhile (· ≠ '.') = extension.toList.reverse := by
    rw [hchars, List.takeWhile_append_of_pos hplain]
    simp
  have hbefore : ((name.toList.reverse.dropWhile (· ≠ '.')).drop 1).reverse =
      (stem name).toList := by
    rw [hchars, List.dropWhile_append_of_pos hplain]
    simp
  have hstem : ¬ (stem name).toList.isEmpty = true := by
    rw [List.isEmpty_iff, String.toList_eq_nil_iff]
    exact stem_ne_empty hname
  rw [extensionOf?, hbefore, hbehind, if_neg hstem, List.reverse_reverse, String.ofList_toList]

/-- A stem with an extension behind it is the name of an entry. -/
theorem isEntry_sibling (hextension : extension ≠ "") (hname : name ≠ "") :
    IsEntry (stem name ++ "." ++ extension) := by
  have hlong : ∀ other : String, other.length ≤ 2 → stem name ++ "." ++ extension ≠ other := by
    rintro other hother rfl
    have hfront := Nat.pos_of_ne_zero (mt String.length_eq_zero_iff.mp (stem_ne_empty hname))
    have hback := Nat.pos_of_ne_zero (mt String.length_eq_zero_iff.mp hextension)
    rw [String.length_append, String.length_append] at hother
    have hdot : ".".length = 1 := rfl
    omega
  refine ⟨?_, hlong ".." (by decide)⟩
  rw [isStill, Bool.or_eq_false_iff]
  exact ⟨decide_eq_false (hlong "" (by decide)), decide_eq_false (hlong "." (by decide))⟩

/-! ## The end of a route -/

/-- A route ends in parts that stay where they are, and the last one before them does not. -/
theorem exists_still (route : Route) :
    ∃ stills, route.parts = trimStill route.parts ++ stills ∧
      (∀ part ∈ stills, isStill part = true) ∧
      ∀ last, (trimStill route.parts).getLast? = some last → isStill last = false := by
  refine ⟨(route.parts.reverse.takeWhile isStill).reverse, ?_, ?_, ?_⟩
  · rw [trimStill, ← List.reverse_append, List.takeWhile_append_dropWhile, List.reverse_reverse]
  · intro part hpart
    exact List.all_eq_true.mp List.all_takeWhile part (List.mem_reverse.mp hpart)
  · intro last hlast
    rw [trimStill, List.getLast?_reverse] at hlast
    have hhead := List.head?_dropWhile_not isStill route.parts.reverse
    rw [hlast] at hhead
    simpa using hhead

/-- Whether a route ends in the name of an entry, behind a front. -/
structure EndsIn (route : Route) (front : List String) (name : String) : Prop where
  parts : route.parts = front ++ [name]
  isEntry : IsEntry name
  named : trimStill route.parts = route.parts

namespace EndsIn

variable {front : List String}

theorem extension?_eq (h : route.EndsIn front name) : route.extension? = extensionOf? name := by
  rw [extension?, h.named, h.parts, List.getLast?_concat]
  split
  · next heq => cases heq
  · next heq => exact absurd (Option.some.inj heq) h.isEntry.2
  · next heq => rw [Option.some.inj heq]

/-- With another extension a route leads past the same front to the sibling of the name. -/
theorem withExtension_eq (h : route.EndsIn front name) (extension : String) :
    route.withExtension extension =
      { route with
        parts := front ++ [if stem name = "." then ".." else stem name ++ "." ++ extension] } := by
  rw [withExtension, h.named, h.parts]
  dsimp only
  rw [List.getLast?_concat, List.dropLast_concat]
  split
  · next heq => cases heq
  · next heq => exact absurd (Option.some.inj heq) h.isEntry.2
  · next heq =>
    rw [← Option.some.inj heq]
    simp only [and_true]

end EndsIn

end Route

namespace Disk

variable {disk : Disk} {here path : Path} {route : Route} {place draft : Place} {name : String}

/-! ## Following the front of a route -/

/-- Parts that stay where they are lead nowhere else. -/
theorem follow_still {parts : List String} (h : ∀ part ∈ parts, Route.isStill part = true)
    (disk : Disk) (here : Path) : disk.follow here parts = .ok here := by
  induction parts with
  | nil => rfl
  | cons part rest ih =>
    rw [follow, if_pos (h part List.mem_cons_self)]
    exact ih fun other hother ↦ h other (List.mem_cons_of_mem _ hother)

/-- A route is followed to the directory where its front ends, as one would with a slash behind the
front, and then on from there. -/
theorem follow_append {rest : List String} (hrest : rest ≠ []) (disk : Disk) (here : Path)
    (front : List String) :
    disk.follow here (front ++ rest) =
      match disk.follow here (front ++ [""]) with
      | .error fault => .error fault
      | .ok middle => disk.follow middle rest := by
  induction front generalizing here with
  | nil => rfl
  | cons part front ih =>
    rw [List.cons_append, List.cons_append, follow, follow]
    by_cases hstill : Route.isStill part = true
    · rw [if_pos hstill, if_pos hstill]
      exact ih here
    · rw [if_neg hstill, if_neg hstill]
      by_cases hback : part = ".."
      · rw [if_pos hback, if_pos hback]
        exact ih here.dropLast
      · have hmore : ¬ (front ++ rest).isEmpty = true := by simp [hrest]
        have hslash : ¬ (front ++ [""]).isEmpty = true := by simp
        rw [if_neg hback, if_neg hback, if_neg hmore, if_neg hslash]
        cases disk.node? (here ++ [part]) with
        | none => rfl
        | some node =>
          cases node with
          | directory => exact ih (here ++ [part])
          | file content => rfl
          | fullDevice => rfl

theorem IsTree.node?_dropLast (htree : disk.IsTree) (h : disk.node? path = some .directory) :
    disk.node? path.dropLast = some .directory := by
  by_cases hroot : path = []
  · rw [hroot]
    rfl
  · exact htree path (by rw [h]; exact nofun) hroot

/-- With a slash behind it a route from a directory leads to directories only. -/
theorem IsTree.node?_of_follow_slash (htree : disk.IsTree) {front : List String}
    (hhere : disk.node? here = some .directory)
    (h : disk.follow here (front ++ [""]) = .ok path) : disk.node? path = some .directory := by
  induction front generalizing here with
  | nil =>
    cases h
    exact hhere
  | cons part front ih =>
    rw [List.cons_append, follow] at h
    by_cases hstill : Route.isStill part = true
    · rw [if_pos hstill] at h
      exact ih hhere h
    · rw [if_neg hstill] at h
      by_cases hback : part = ".."
      · rw [if_pos hback] at h
        exact ih (htree.node?_dropLast hhere) h
      · have hslash : ¬ (front ++ [""]).isEmpty = true := by simp
        rw [if_neg hback, if_neg hslash] at h
        split at h
        · next hdirectory => exact ih hdirectory h
        · cases h
        · cases h

/-! ## Routes that lead to nothing yet -/

theorem hasAt_of_locate {node : Node} (hlocate : disk.locate route = .ok place)
    (hnode : disk.node? place.path = some node) : disk.hasAt route = true := by
  rw [hasAt, hlocate]
  dsimp only
  rw [has, get?_of_locate hlocate hnode]
  rfl

/-- Where there is nothing at the end of a route no node stands at its path. -/
theorem node?_of_hasAt (habsent : disk.hasAt route = false)
    (hlocate : disk.locate route = .ok place) : disk.node? place.path = none := by
  cases hnode : disk.node? place.path with
  | none => rfl
  | some node =>
    rw [hasAt_of_locate hlocate hnode] at habsent
    cases habsent

/-- **A route that leads to nothing yet ends in a name**, which is looked for in the directory where
its front ends. -/
theorem IsTree.ends_in_name (htree : disk.IsTree)
    (hstart : disk.node? route.start = some .directory) (habsent : disk.hasAt route = false)
    (hlocate : disk.locate route = .ok place) :
    ∃ front name middle, route.EndsIn front name ∧
      disk.follow route.start (front ++ [""]) = .ok middle ∧ place.path = middle ++ [name] := by
  have hnone := node?_of_hasAt habsent hlocate
  obtain ⟨_, hfollow, _⟩ := locate_eq_ok_iff.mp hlocate
  obtain ⟨stills, hparts, hstills, hlast⟩ := Route.exists_still route
  have hnotDirectory : disk.node? place.path ≠ some .directory := by
    rw [hnone]
    exact nofun
  cases hnamed : (Route.trimStill route.parts).getLast? with
  | none =>
    rw [List.getLast?_eq_none_iff] at hnamed
    rw [hparts, hnamed, List.nil_append, follow_still hstills] at hfollow
    rw [Except.ok.inj hfollow] at hstart
    exact absurd hstart hnotDirectory
  | some name =>
    have hmoves := hlast name hnamed
    obtain ⟨front, hfront⟩ := List.getLast?_eq_some_iff.mp hnamed
    rw [hparts, hfront, List.append_assoc, List.singleton_append,
      follow_append (List.cons_ne_nil _ _)] at hfollow
    cases hmiddle : disk.follow route.start (front ++ [""]) with
    | error fault => rw [hmiddle] at hfollow; cases hfollow
    | ok middle =>
      have hdirectory := htree.node?_of_follow_slash hstart hmiddle
      rw [hmiddle] at hfollow
      dsimp only at hfollow
      rw [follow, if_neg (by rw [hmoves]; exact Bool.false_ne_true)] at hfollow
      by_cases hback : name = ".."
      · rw [if_pos hback, follow_still hstills] at hfollow
        have hparent := htree.node?_dropLast hdirectory
        rw [Except.ok.inj hfollow] at hparent
        exact absurd hparent hnotDirectory
      · rw [if_neg hback] at hfollow
        by_cases hend : stills = []
        · rw [hend, List.isEmpty_nil, if_pos rfl] at hfollow
          rw [hend, List.append_nil] at hparts
          rw [← hparts] at hfront
          exact ⟨front, name, middle, ⟨hfront, ⟨hmoves, hback⟩, hparts.symm⟩, hmiddle,
            (Except.ok.inj hfollow).symm⟩
        · rw [if_neg (by simpa using hend)] at hfollow
          split at hfollow
          · next hinside =>
            rw [follow_still hstills] at hfollow
            rw [Except.ok.inj hfollow] at hinside
            exact absurd hinside hnotDirectory
          · cases hfollow
          · cases hfollow

/-- **The file with another extension is another one**, if the one to which a route leads is not
there and has not that extension. -/
theorem IsTree.path_ne_of_withExtension (htree : disk.IsTree)
    (hstart : disk.node? route.start = some .directory) (habsent : disk.hasAt route = false)
    {extension : String} (hempty : extension ≠ "") (hdot : '.' ∉ extension.toList)
    (hother : route.extension? ≠ some extension) (hlocate : disk.locate route = .ok place)
    (hdraft : disk.locate (route.withExtension extension) = .ok draft) :
    draft.path ≠ place.path := by
  obtain ⟨front, name, middle, hends, hmiddle, hpath⟩ :=
    htree.ends_in_name hstart habsent hlocate
  have hname : name ≠ "" := by
    rintro rfl
    cases hends.isEntry.1
  obtain ⟨_, hfollow, _⟩ := locate_eq_ok_iff.mp hdraft
  rw [hends.withExtension_eq] at hfollow
  dsimp only at hfollow
  rw [follow_append (List.cons_ne_nil _ _), hmiddle] at hfollow
  dsimp only at hfollow
  rw [hpath]
  by_cases hstem : Route.stem name = "."
  · rw [if_pos hstem, follow, if_neg (by decide), if_pos rfl] at hfollow
    rw [← Except.ok.inj hfollow]
    intro heq
    have hlength := congrArg List.length heq
    rw [List.length_dropLast, List.length_append, List.length_singleton] at hlength
    omega
  · have hsibling := Route.isEntry_sibling hempty hname
    rw [if_neg hstem, follow_name hsibling.1 hsibling.2] at hfollow
    rw [← Except.ok.inj hfollow]
    intro heq
    rw [List.append_cancel_left_eq, List.cons.injEq, and_iff_left rfl] at heq
    rw [hends.extension?_eq] at hother
    exact hother (Route.extensionOf?_of_eq hdot heq.symm)

/-! ## Files made beside -/

/-- **A file made elsewhere leads no route to anything new**: what a route needs on its way are
directories. -/
theorem hasAt_set_file (hpath : path ≠ []) (habsent : disk.hasAt route = false)
    (hne : ∀ place, disk.locate route = .ok place → path ≠ place.path) (content : Bytes) :
    (disk.set path (.file content)).hasAt route = false := by
  have hdirectories : ∀ asked, (disk.set path (.file content)).node? asked = some .directory →
      disk.node? asked = some .directory := by
    intro asked hasked
    rw [node?_set hpath] at hasked
    split at hasked
    · cases hasked
    · exact hasked
  cases hlocate : (disk.set path (.file content)).locate route with
  | error fault => rw [hasAt, hlocate]
  | ok place =>
    have hbefore := locate_of_directories hdirectories hlocate
    have hnone : (disk.set path (.file content)).get? place = none := by
      rw [get?_set_of_ne hpath (hne place hbefore)]
      exact get?_of_node?_eq_none (node?_of_hasAt habsent hbefore)
    rw [hasAt, hlocate]
    dsimp only
    rw [has, hnone]
    rfl

end Disk

end TableStore

import Mathlib.Data.List.Induction
import TableStore.Command.Run
import TableStore.Proofs.Json.Data
import TableStore.Proofs.Record.Canonical

/-!
# Items and keys as operands

An item that a format accepts is read from its own text, and from any object with the same members
in which names that it does not have stand for nothing. Its key is read from the text of the value,
and a key that is a text from this text itself, unless that spells a text in turn.
-/

namespace TableStore

/-! ## Members -/

namespace Item

/-- Whether a member says of its name what the item has there: its value, or `null` for none. -/
def Allows (item : Item) (name : String) (tree : Json) : Prop :=
  (∃ value, item[name]? = some value ∧ tree = value.toJson) ∨ item[name]? = none ∧ tree = .null

/-- Whether members give an item: each of its values, and beside them only `null` under names that
it does not have. -/
structure IsGivenBy (item : Item) (members : List (String × Json)) : Prop where
  given : ∀ (name : String) (value : Value), item[name]? = some value →
    (name, value.toJson) ∈ members
  allowed : ∀ name tree, (name, tree) ∈ members → item.Allows name tree

theorem mem_members_iff {item : Item} {name : String} {tree : Json} :
    (name, tree) ∈ item.members ↔ ∃ value, item[name]? = some value ∧ value.toJson = tree := by
  simp only [members, List.mem_map, Prod.exists, Prod.mk.injEq,
    Std.ExtTreeMap.mem_toList_iff_getElem?_eq_some]
  constructor
  · rintro ⟨_, value, hvalue, rfl, rfl⟩
    exact ⟨value, hvalue, rfl⟩
  · rintro ⟨value, hvalue, rfl⟩
    exact ⟨name, value, hvalue, rfl, rfl⟩

/-- An item is given by its own members. -/
theorem isGivenBy_members (item : Item) : item.IsGivenBy item.members where
  given name value hvalue := mem_members_iff.mpr ⟨value, hvalue, rfl⟩
  allowed name tree hmember := by
    obtain ⟨value, hvalue, rfl⟩ := mem_members_iff.mp hmember
    exact .inl ⟨value, hvalue, rfl⟩

/-- The members that give an item with finite values are read back from their text. -/
theorem IsGivenBy.isFaithful {item : Item} {members : List (String × Json)}
    (h : item.IsGivenBy members) (hfinite : item.IsFinite) :
    (Json.ofFields members).IsFaithful := by
  apply Json.IsFaithful.ofFields
  rintro ⟨name, tree⟩ hmember
  rcases h.allowed name tree hmember with ⟨value, hvalue, rfl⟩ | ⟨_, rfl⟩
  · exact Value.isFaithful_toJson (hfinite name value hvalue)
  · exact .null

theorem IsGivenBy.depth_le {item : Item} {members : List (String × Json)}
    (h : item.IsGivenBy members) : (Json.ofFields members).depth ≤ 1 := by
  apply Nat.succ_le_succ
  rw [Json.depthMembers_le_iff, List.forall_mem_map]
  rintro ⟨name, tree⟩ hmember
  rcases h.allowed name tree hmember with ⟨value, _, rfl⟩ | ⟨_, rfl⟩
  · exact Nat.le_of_eq value.depth_toJson
  · exact Nat.le_refl 0

end Item

namespace Command

/-! ## Reading an item -/

/-- The members by name that are named by texts. -/
def byName (members : List (String × Json)) : Std.ExtTreeMap String Json Utf8.order :=
  membersByName (members.map fun (name, tree) ↦ (some name, tree))

/-- The last member of a name counts. -/
theorem getElem?_byName_concat (members : List (String × Json)) (column : String) (tree : Json)
    (name : String) :
    (byName (members ++ [(column, tree)]))[name]? =
      if column = name then some tree else (byName members)[name]? := by
  have hinsert : byName (members ++ [(column, tree)]) = (byName members).insert column tree := by
    rw [byName, membersByName, List.map_append, List.foldl_append]
    rfl
  rw [hinsert, Std.ExtTreeMap.getElem?_insert]
  simp only [Std.LawfulEqCmp.compare_eq_iff_eq]

/-- What there is by name is one of the members. -/
theorem mem_of_getElem?_byName {members : List (String × Json)} {name : String} {tree : Json}
    (h : (byName members)[name]? = some tree) : (name, tree) ∈ members := by
  induction members using List.reverseRecOn with
  | nil => simp [byName, membersByName] at h
  | append_singleton members last ih =>
    rw [getElem?_byName_concat] at h
    split at h
    · next heq =>
      cases h
      subst heq
      exact List.mem_append_right _ (List.mem_singleton_self _)
    · exact List.mem_append_left _ (ih h)

/-- There is something under the name of each member. -/
theorem exists_getElem?_byName {members : List (String × Json)} {name : String} {tree : Json}
    (h : (name, tree) ∈ members) : ∃ found, (byName members)[name]? = some found := by
  induction members using List.reverseRecOn with
  | nil => cases h
  | append_singleton members last ih =>
    rw [getElem?_byName_concat]
    split
    · exact ⟨_, rfl⟩
    · next hne =>
      rcases List.mem_append.mp h with hmember | hlast
      · exact ih hmember
      · cases List.mem_singleton.mp hlast
        exact absurd rfl hne

/-- What is not `null` is read as a value of its column. -/
theorem itemOfMembers_cons (schema : Schema) (start : Item) (column : String) {tree : Json}
    {value : Value} (rest : List (String × Json)) (h : Value.ofJson? tree = some value) :
    itemOfMembers schema start ((column, tree) :: rest) =
      itemOfMembers schema (start.insert column (coerceTo (schema.column? column) value)) rest := by
  cases tree with
  | null => cases h
  | _ =>
    rw [itemOfMembers]
    · rw [h]
    · exact nofun

/-- The values of an item are read one after the other, and nothing is read from `null`. -/
theorem itemOfMembers_of_given {schema : Schema} {item : Item} {entries : List (String × Json)}
    (hfinite : item.IsFinite)
    (htypes : ∀ (name : String) (value : Value), item[name]? = some value →
      coerceTo (schema.column? name) value = value)
    (h : ∀ name tree, (name, tree) ∈ entries → item.Allows name tree) (start : Item) :
    ∃ read : Item, itemOfMembers schema start entries = .ok read ∧ ∀ name : String,
      read[name]? =
        if name ∈ entries.map (·.1) then item[name]?.or start[name]? else start[name]? := by
  induction entries generalizing start with
  | nil => exact ⟨start, rfl, fun name ↦ by simp⟩
  | cons entry rest ih =>
    obtain ⟨column, tree⟩ := entry
    have hrest := fun name tree hmember ↦ h name tree (List.mem_cons_of_mem _ hmember)
    rcases h column tree List.mem_cons_self with ⟨value, hvalue, rfl⟩ | ⟨hnone, rfl⟩
    · obtain ⟨read, hread, hget⟩ := ih hrest (start.insert column value)
      have hstep := itemOfMembers_cons schema start column rest
        (Value.ofJson?_toJson (hfinite column value hvalue))
      rw [htypes column value hvalue] at hstep
      refine ⟨read, hstep.trans hread, ?_⟩
      intro name
      by_cases hname : column = name
      · subst hname
        simp [hget, hvalue]
      · have hstart : (start.insert column value)[name]? = start[name]? := by
          rw [Std.ExtTreeMap.getElem?_insert, if_neg]
          rwa [Std.LawfulEqCmp.compare_eq_iff_eq]
        simp only [hget, hstart, List.map_cons, List.mem_cons, Ne.symm hname, false_or]
    · obtain ⟨read, hread, hget⟩ := ih hrest start
      refine ⟨read, hread, ?_⟩
      intro name
      by_cases hname : column = name
      · subst hname
        simp [hget, hnone]
      · simp only [hget, List.map_cons, List.mem_cons, Ne.symm hname, false_or]

/-- **An item is read from members that give it.** -/
theorem itemOfMembers_eq {schema : Schema} {item : Item} {members : List (String × Json)}
    (hfinite : item.IsFinite)
    (htypes : ∀ (name : String) (value : Value), item[name]? = some value →
      coerceTo (schema.column? name) value = value)
    (h : item.IsGivenBy members) :
    itemOfMembers schema ∅ (byName members).toList = .ok item := by
  have hallowed : ∀ name tree, (name, tree) ∈ (byName members).toList → item.Allows name tree :=
    fun name tree hentry ↦ h.allowed name tree
      (mem_of_getElem?_byName (Std.ExtTreeMap.mem_toList_iff_getElem?_eq_some.mp hentry))
  obtain ⟨read, hread, hget⟩ := itemOfMembers_of_given hfinite htypes hallowed ∅
  have hsame : read = item := by
    apply Std.ExtTreeMap.ext_getElem?
    intro name
    rw [hget]
    split
    · rw [Std.ExtTreeMap.getElem?_empty, Option.or_none]
    · next habsent =>
      rw [Std.ExtTreeMap.getElem?_empty]
      -- Each value of the item has a member.
      cases hvalue : item[name]? with
      | none => rfl
      | some value =>
        obtain ⟨tree, htree⟩ := exists_getElem?_byName (h.given name value hvalue)
        exact absurd (List.mem_map.mpr
          ⟨(name, tree), Std.ExtTreeMap.mem_toList_iff_getElem?_eq_some.mpr htree, rfl⟩) habsent
  rw [hread, hsame]

/-- The texts with which an item can be given: its own, and those of other members that give it. -/
inductive GivesItem (item : Item) : String → Prop where
  | own : GivesItem item (itemLine item)
  | members {members : List (String × Json)} (h : item.IsGivenBy members) :
    GivesItem item (Json.ofFields members).render

/-- **An item is read from a text with which it is given.** -/
theorem readItem_of_gives {schema : Schema} {item : Item} {text : String}
    (hfinite : item.IsFinite)
    (htypes : ∀ (name : String) (value : Value), item[name]? = some value →
      coerceTo (schema.column? name) value = value)
    (h : GivesItem item text) : readItem schema text = .ok item := by
  obtain ⟨members, hgiven, rfl⟩ : ∃ members, item.IsGivenBy members ∧
      text = (Json.ofFields members).render := by
    cases h with
    | own => exact ⟨item.members, item.isGivenBy_members, rfl⟩
    | members hgiven => exact ⟨_, hgiven, rfl⟩
  have hfaithful := hgiven.isFaithful hfinite
  have hreadable := hfaithful.isReadable (Nat.le_trans hgiven.depth_le (by decide))
  rw [readItem, Json.parse?_render hfaithful.isCanonical]
  dsimp only [Json.ofFields]
  rw [Json.ofFields] at hreadable
  rw [if_pos hreadable]
  exact itemOfMembers_eq hfinite htypes hgiven

/-! ## Reading a key -/

theorem coerce_of_type {value : Value} {type : ColumnType} (h : value.type = type) :
    value.coerce type = value := by
  subst h
  cases value <;> rfl

/-- The texts with which a key can be given: that of its value, and for a text this text itself,
unless it spells a text. -/
inductive GivesKey (key : Value) : String → Prop where
  | value : GivesKey key key.toJson.render
  | bare {text : String} (hkey : key = .text text)
      (hbare : ∀ spelled, Json.parse? text ≠ some (.string (some spelled))) : GivesKey key text

/-- Only a text is read as one. -/
theorem eq_string_of_ofJson? {tree : Json} {text : String}
    (h : Value.ofJson? tree = some (.text text)) : tree = .string (some text) := by
  match tree, h with
  | .number literal, h =>
    change Value.ofLiteral? literal = _ at h
    rw [Value.ofLiteral?] at h
    split at h
    · cases h
    · obtain ⟨_, _, heq⟩ := Option.map_eq_some_iff.mp h
      cases heq
  | .string spelled, h =>
    obtain ⟨_, hspelled, heq⟩ := Option.map_eq_some_iff.mp h
    cases heq
    rw [hspelled]

/-- **A key is read from a text with which it is given.** -/
theorem readKey_of_gives {schema : Schema} {column : Column} {key : Value} {text : String}
    (hfinite : key.IsFinite) (hcolumn : schema.keyColumn? = some column)
    (htype : key.type = column.type) (h : GivesKey key text) : readKey schema text = key := by
  rw [readKey, hcolumn]
  dsimp only
  cases h with
  | value =>
    have hread : (Json.parse? key.toJson.render).bind Value.ofJson? = some key := by
      rw [Json.parse?_render (Value.isCanonical_toJson hfinite), Option.bind_some,
        Value.ofJson?_toJson hfinite]
    rw [hread, Option.getD_some]
    split
    · next htext => rw [if_pos (htype.trans htext)]
    · exact coerce_of_type htype
  | bare hkey hbare =>
    subst hkey
    have htext : column.type = .text := htype.symm
    rw [if_pos htext]
    -- What the text spells is not a text, so that the text stands for itself.
    split
    · next htext =>
      cases hread : (Json.parse? text).bind Value.ofJson? with
      | none => rfl
      | some value =>
        rw [hread, Option.getD_some] at htext
        obtain ⟨tree, htree, hvalue⟩ := Option.bind_eq_some_iff.mp hread
        cases value with
        | text spelled =>
          rw [eq_string_of_ofJson? hvalue] at htree
          exact absurd htree (hbare spelled)
        | _ => cases htext
    · rfl

end Command

end TableStore

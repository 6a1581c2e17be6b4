import TableStore.Record.Format
import TableStore.Schema.Valid

/-!
# What a valid schema is

The check of a schema walks through it and stops at the first fault. What it has made sure of when
it finds none can be said without the walk: the lengths fit the descriptor, the columns have
distinct names, and the primary key is one of them. The last of these is what a record format
needs, so that every valid schema has one.
-/

namespace TableStore.Schema

/-- What holds of a schema without faults. -/
structure IsValid (schema : Schema) : Prop where
  name_ne_empty : schema.name.isEmpty = false
  name_chars : schema.name.toList.all isNameChar = true
  name_short : schema.name.utf8ByteSize ≤ limit
  columns_ne_nil : schema.columns ≠ []
  columns_few : schema.columns.length ≤ limit
  column_names_short : ∀ column ∈ schema.columns, column.name.utf8ByteSize ≤ limit
  column_names_distinct : (schema.columns.map (·.name)).Nodup
  key_mem : ∃ column ∈ schema.columns, column.name = schema.primaryKey

/-! ## The parts of the check -/

theorem of_checkName {name : String} (h : checkName name = .ok ()) :
    name.isEmpty = false ∧ name.toList.all isNameChar = true ∧ name.utf8ByteSize ≤ limit := by
  unfold checkName at h
  split at h
  · cases h
  · next hempty =>
    split at h
    · cases h
    · next hchars =>
      split at h
      · cases h
      · next hlength =>
        exact ⟨by simpa using hempty, by simpa using hchars, Nat.not_lt.mp hlength⟩

theorem of_checkCount {count : Nat} (h : checkCount count = .ok ()) :
    count ≠ 0 ∧ count ≤ limit := by
  unfold checkCount at h
  split at h
  · cases h
  · next hzero =>
    split at h
    · cases h
    · next hlimit => exact ⟨hzero, Nat.not_lt.mp hlimit⟩

/-- The walk over the columns has met every name once, and collects them all. -/
theorem of_checkColumns {seen names : Std.TreeSet String} {columns : List Column}
    (h : checkColumns seen columns = .ok names) :
    (∀ column ∈ columns, column.name.utf8ByteSize ≤ limit ∧ seen.contains column.name = false) ∧
      (columns.map (·.name)).Nodup ∧
      ∀ name, names.contains name = true ↔
        seen.contains name = true ∨ ∃ column ∈ columns, column.name = name := by
  induction columns generalizing seen with
  | nil =>
    cases h
    simp
  | cons column rest ih =>
    unfold checkColumns at h
    split at h
    · cases h
    · split at h
      · cases h
      · next hlength =>
        split at h
        · cases h
        · next hseen =>
          obtain ⟨hrest, hdistinct, hnames⟩ := ih h
          have hfresh : ∀ other ∈ rest, column.name ≠ other.name := by
            intro other hother heq
            have hcontains := (hrest other hother).2
            simp [Std.TreeSet.contains_insert, heq] at hcontains
          refine ⟨?_, ?_, ?_⟩
          · intro other hother
            rcases List.mem_cons.mp hother with rfl | hother
            · exact ⟨Nat.not_lt.mp hlength, Bool.eq_false_iff.mpr hseen⟩
            · obtain ⟨hshort, hcontains⟩ := hrest other hother
              rw [Std.TreeSet.contains_insert, Bool.or_eq_false_iff] at hcontains
              exact ⟨hshort, hcontains.2⟩
          · rw [List.map_cons, List.nodup_cons]
            refine ⟨?_, hdistinct⟩
            intro hmem
            obtain ⟨other, hother, heq⟩ := List.mem_map.mp hmem
            exact hfresh other hother heq.symm
          · intro name
            rw [hnames name, Std.TreeSet.contains_insert]
            simp only [Bool.or_eq_true, beq_iff_eq, Std.compare_eq_iff_eq, List.mem_cons,
              exists_eq_or_imp]
            rw [or_comm (a := column.name = name), or_assoc]

/-! ## The whole check -/

theorem isValid_of_check {schema : Schema} (h : schema.check = .ok ()) : schema.IsValid := by
  simp only [check, bind, Except.bind] at h
  split at h
  · cases h
  · next hname =>
    split at h
    · cases h
    · next hcount =>
      split at h
      · cases h
      · next names hcolumns =>
        obtain ⟨hempty, hchars, hshort⟩ := of_checkName hname
        obtain ⟨hzero, hlimit⟩ := of_checkCount hcount
        obtain ⟨hlengths, hdistinct, hnames⟩ := of_checkColumns hcolumns
        have hkey : names.contains schema.primaryKey = true := by
          unfold checkKey at h
          split at h
          · next hcontains => exact hcontains
          · cases h
        refine ⟨hempty, hchars, hshort, ?_, hlimit,
          fun column hcolumn ↦ (hlengths column hcolumn).1, hdistinct, ?_⟩
        · intro hnil
          exact hzero (by rw [hnil]; rfl)
        · rcases (hnames schema.primaryKey).mp hkey with hseen | hcolumn
          · simp at hseen
          · exact hcolumn

theorem checkName_of_check {schema : Schema} (h : schema.check = .ok ()) :
    checkName schema.name = .ok () := by
  simp only [check, bind, Except.bind] at h
  split at h
  · cases h
  · assumption

/-- Under another name a sound schema is at fault if the name is. -/
theorem check_named {schema : Schema} (h : schema.check = .ok ()) (name : String) :
    { schema with name }.check = checkName name := by
  have hname := checkName_of_check h
  simp only [check, bind, Except.bind, hname] at h ⊢
  cases checkName name with
  | error fault => rfl
  | ok _ => exact h

theorem check_of_validate {schema : Schema} (h : schema.validate = .ok ()) :
    schema.check = .ok () := by
  unfold validate at h
  cases hcheck : schema.check with
  | error fault => rw [hcheck] at h; cases h
  | ok _ => rfl

theorem isValid_of_validate {schema : Schema} (h : schema.validate = .ok ()) : schema.IsValid :=
  isValid_of_check (check_of_validate h)

/-- Every valid schema has a record format, over its own columns and key. -/
theorem IsValid.exists_format {schema : Schema} (h : schema.IsValid) :
    ∃ format, RecordFormat.ofSchema schema = .ok format := by
  obtain ⟨column, hcolumn, hname⟩ := h.key_mem
  have hposition : (schema.position? schema.primaryKey).isSome = true := by
    rw [position?, List.findIdx?_isSome, List.any_eq_true]
    exact ⟨column, hcolumn, by simpa using hname⟩
  unfold RecordFormat.ofSchema
  split
  · next hnone => rw [hnone] at hposition; cases hposition
  · exact ⟨_, rfl⟩

end TableStore.Schema

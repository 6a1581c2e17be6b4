import Mathlib.Data.List.Induction
import Mathlib.Data.List.Nodup
import Mathlib.Data.List.Pairwise
import TableStore.Proofs.Log.Scan
import TableStore.Table.Compact

/-!
# The rows of a log

A row is a record with the key it is filed under. Of several rows with one key only the last one
counts, and the rows that count keep the order in which they were written. The index built along a
log says exactly this: it has one entry for every row that counts, and sends its key to the place
where it stands. Reading the index in the order of its offsets gives the rows that count in order.
-/

-- Sums start at the zero of the core library, whatever is imported beside it.
attribute [local instance (1100)] Zero.ofOfNat0

namespace TableStore

/-! ## Keeping the last of each key -/

section Latest

variable {α β κ : Type} [DecidableEq κ]

/-- The entries of a list that no later entry with the same key follows. -/
def latestBy (key : α → κ) (entries : List α) : List α :=
  entries.pwFilter fun earlier later ↦ key earlier ≠ key later

theorem latestBy_sublist (key : α → κ) (entries : List α) :
    (latestBy key entries).Sublist entries :=
  List.pwFilter_sublist entries

theorem pairwise_latestBy (key : α → κ) (entries : List α) :
    (latestBy key entries).Pairwise fun earlier later ↦ key earlier ≠ key later :=
  List.pairwise_pwFilter entries

theorem latestBy_map (key : β → κ) (f : α → β) (entries : List α) :
    latestBy key (entries.map f) = (latestBy (key ∘ f) entries).map f :=
  List.pwFilter_map f entries

/-- Keeping the last of each key twice is keeping it once. -/
@[simp]
theorem latestBy_latestBy (key : α → κ) (entries : List α) :
    latestBy key (latestBy key entries) = latestBy key entries :=
  List.pwFilter_idem

/-- One more entry puts out the one with its key, and comes last. -/
theorem latestBy_concat (key : α → κ) (entries : List α) (last : α) :
    latestBy key (entries ++ [last]) =
      (latestBy key entries).filter (fun entry ↦ key entry ≠ key last) ++ [last] := by
  induction entries with
  | nil => rfl
  | cons head rest ih =>
    have hcons : ∀ others : List α, latestBy key (head :: others) =
        if ∀ other ∈ latestBy key others, key head ≠ key other then head :: latestBy key others
        else latestBy key others := fun _ ↦ rfl
    rw [List.cons_append, hcons, ih, hcons rest]
    by_cases hlast : key head = key last
    · have hout : ¬ ∀ other ∈
          (latestBy key rest).filter (fun entry ↦ key entry ≠ key last) ++ [last],
          key head ≠ key other := by
        intro hall
        exact hall last (by simp) hlast
      rw [if_neg hout]
      split
      · simp [hlast]
      · rfl
    · by_cases hfresh : ∀ other ∈ latestBy key rest, key head ≠ key other
      · have hin : ∀ other ∈
            (latestBy key rest).filter (fun entry ↦ key entry ≠ key last) ++ [last],
            key head ≠ key other := by
          intro other hother
          rcases List.mem_append.mp hother with hother | hother
          · exact hfresh other (List.mem_filter.mp hother).1
          · rw [List.mem_singleton.mp hother]
            exact hlast
        rw [if_pos hin, if_pos hfresh]
        simp [hlast]
      · have hout : ¬ ∀ other ∈
            (latestBy key rest).filter (fun entry ↦ key entry ≠ key last) ++ [last],
            key head ≠ key other := by
          intro hall
          apply hfresh
          intro other hother hkey
          have hkept : other ∈
              (latestBy key rest).filter (fun entry ↦ key entry ≠ key last) ++ [last] := by
            rw [List.mem_append, List.mem_filter]
            exact .inl ⟨hother, by simpa [← hkey] using hlast⟩
          exact hall other hkept hkey
        rw [if_neg hout, if_neg hfresh]

/-- No later entry has the key of one that is kept. -/
theorem mem_latestBy {key : α → κ} {entries : List α} {entry : α}
    (h : entry ∈ latestBy key entries) :
    ∃ before after, entries = before ++ entry :: after ∧
      ∀ other ∈ after, key other ≠ key entry := by
  induction entries using List.reverseRecOn with
  | nil => simp [latestBy] at h
  | append_singleton entries last ih =>
    rw [latestBy_concat, List.mem_append, List.mem_filter] at h
    rcases h with ⟨hmem, hkey⟩ | hlast
    · obtain ⟨before, after, rfl, hafter⟩ := ih hmem
      refine ⟨before, after ++ [last], by simp, ?_⟩
      intro other hother
      rcases List.mem_append.mp hother with hother | hother
      · exact hafter other hother
      · rw [List.mem_singleton.mp hother]
        have hdistinct : key entry ≠ key last := by simpa using hkey
        exact hdistinct.symm
    · rw [List.mem_singleton.mp hlast]
      exact ⟨entries, [], rfl, by simp⟩

/-- An entry is kept unless a later one has its key. -/
theorem latestBy_cons (key : α → κ) (entry : α) (rest : List α) :
    latestBy key (entry :: rest) =
      if ∀ other ∈ rest, key entry ≠ key other then entry :: latestBy key rest
      else latestBy key rest := by
  have hkept : (∀ other ∈ latestBy key rest, key entry ≠ key other) ↔
      ∀ other ∈ rest, key entry ≠ key other := by
    refine List.forall_mem_pwFilter ?_ entry rest
    intro first second third hne
    by_cases h : key first = key second
    · exact .inr (h ▸ hne)
    · exact .inl h
  by_cases h : ∀ other ∈ rest, key entry ≠ key other
  · rw [if_pos h]
    exact List.pwFilter_cons_of_pos (hkept.mpr h)
  · rw [if_neg h]
    exact List.pwFilter_cons_of_neg (mt hkept.mp h)

/-- An entry that no later one with its key follows is kept. -/
theorem mem_latestBy_append_cons {key : α → κ} {before after : List α} {entry : α}
    (h : ∀ other ∈ after, key other ≠ key entry) :
    entry ∈ latestBy key (before ++ entry :: after) := by
  induction before with
  | nil =>
    rw [List.nil_append, latestBy_cons, if_pos fun other hother ↦ (h other hother).symm]
    exact List.mem_cons_self
  | cons first rest ih =>
    rw [List.cons_append, latestBy_cons]
    split
    · exact List.mem_cons_of_mem _ ih
    · exact ih

theorem eq_of_mem_latestBy {key : α → κ} {entries : List α} {entry other : α}
    (hentry : entry ∈ latestBy key entries) (hother : other ∈ latestBy key entries)
    (h : key entry = key other) : entry = other := by
  have hkeys : ((latestBy key entries).map key).Nodup := by
    rw [List.nodup_iff_pairwise_ne, List.pairwise_map]
    exact pairwise_latestBy key entries
  exact List.inj_on_of_nodup_map hkeys hentry hother h

/-- An entry that is kept is found by its key. -/
theorem find?_latestBy {key : α → κ} {entries : List α} {entry : α}
    (h : entry ∈ latestBy key entries) :
    (latestBy key entries).find? (fun other ↦ key other = key entry) = some entry := by
  cases hfind : (latestBy key entries).find? (fun other ↦ key other = key entry) with
  | none =>
    have hnone := List.find?_eq_none.mp hfind entry h
    simp at hnone
  | some other =>
    have hkey : key other = key entry := by simpa using List.find?_some hfind
    rw [eq_of_mem_latestBy (List.mem_of_find?_eq_some hfind) h hkey]

/-- Where each key is there once, the entries with a key are the one that is found. -/
theorem filter_eq_toList_find? {key : α → κ} {entries : List α} (h : (entries.map key).Nodup)
    (wanted : κ) :
    entries.filter (fun entry ↦ key entry = wanted) =
      (entries.find? fun entry ↦ key entry = wanted).toList := by
  induction entries with
  | nil => rfl
  | cons head rest ih =>
    rw [List.map_cons, List.nodup_cons] at h
    by_cases hhead : key head = wanted
    · have hnone : rest.filter (fun entry ↦ key entry = wanted) = [] := by
        rw [List.filter_eq_nil_iff]
        intro entry hentry hkey
        have hsame : key entry = key head := (of_decide_eq_true hkey).trans hhead.symm
        exact h.1 (hsame ▸ List.mem_map_of_mem hentry)
      simp only [List.filter_cons, List.find?_cons, hhead, decide_true, if_true, hnone,
        Option.toList_some]
    · simp only [List.filter_cons, List.find?_cons, hhead, decide_false, Bool.false_eq_true,
        if_false, ih h.2]

/-- Of a list without repetitions, the entries of a sublist are the sublist. -/
theorem filter_eq_of_sublist {part whole : List α} (h : part.Sublist whole) (hnodup : whole.Nodup)
    {keep : α → Bool} (hkeep : ∀ entry ∈ whole, keep entry = true ↔ entry ∈ part) :
    whole.filter keep = part := by
  induction h with
  | slnil => rfl
  | @cons part rest head hpart ih =>
    obtain ⟨hhead, hrest⟩ := List.nodup_cons.mp hnodup
    have hout : keep head ≠ true := by
      rw [Ne, hkeep head (by simp)]
      exact fun hmem ↦ hhead (hpart.subset hmem)
    rw [List.filter_cons_of_neg hout]
    exact ih hrest fun entry hentry ↦ hkeep entry (by simp [hentry])
  | @cons_cons part rest head hpart ih =>
    obtain ⟨hhead, hrest⟩ := List.nodup_cons.mp hnodup
    have hin : keep head = true := (hkeep head (by simp)).mpr (by simp)
    rw [List.filter_cons_of_pos hin, ih hrest]
    intro entry hentry
    have hne : entry ≠ head := fun heq ↦ hhead (heq ▸ hentry)
    simpa [hne] using hkeep entry (by simp [hentry])

end Latest

/-! ## Rows -/

/-- A key with a record. -/
abbrev Row := Bytes × Bytes

/-- Whether a row's record is a frame in which its key can be read. -/
structure RecordFormat.IsRow (format : RecordFormat) (row : Row) : Prop where
  isFrame : Frame.IsFrame row.2
  readKey : format.readKey row.2 = .ok row.1

theorem RecordFormat.IsRow.decodeKey {format : RecordFormat} {row : Row} (h : format.IsRow row) :
    format.decodeKey row.2 = .ok row.1 := by
  rw [RecordFormat.decodeKey, h.readKey]
  rfl

/-- The rows that count. -/
def latest (rows : List Row) : List Row :=
  latestBy (·.1) rows

/-- The rows that count, with the offsets at which they stand if the rows begin at `offset`. -/
def latestAt (offset : Nat) (rows : List Row) : List (Nat × Row) :=
  latestBy (·.2.1) (located (·.2.length) offset rows)

/-- A row counts unless a later row has its key. -/
theorem latest_cons (row : Row) (rest : List Row) :
    latest (row :: rest) =
      if row.1 ∈ rest.map (·.1) then latest rest else row :: latest rest := by
  have hlater : (∀ other ∈ rest, row.1 ≠ other.1) ↔ row.1 ∉ rest.map (·.1) := by
    rw [List.mem_map, not_exists]
    exact forall_congr' fun other ↦ ⟨fun h hmem ↦ h hmem.1 hmem.2.symm,
      fun h hmem heq ↦ h ⟨hmem, heq.symm⟩⟩
  rw [latest, latestBy_cons, latest]
  by_cases h : row.1 ∈ rest.map (·.1)
  · rw [if_neg (hlater.not.mpr (not_not_intro h)), if_pos h]
  · rw [if_pos (hlater.mpr h), if_neg h]

theorem map_snd_latestAt (offset : Nat) (rows : List Row) :
    (latestAt offset rows).map (·.2) = latest rows := by
  calc
    (latestAt offset rows).map (·.2) =
        latestBy (·.1) ((located (·.2.length) offset rows).map (·.2)) :=
      (latestBy_map (fun row : Row ↦ row.1) (fun entry : Nat × Row ↦ entry.2) _).symm
    _ = latest rows := by rw [map_snd_located, latest]

@[simp]
theorem latest_latest (rows : List Row) : latest (latest rows) = latest rows :=
  latestBy_latestBy _ rows

theorem length_concatenated (rows : List Row) :
    (Table.concatenated rows).length = (rows.map (·.2.length)).sum := by
  rw [Table.concatenated, List.length_flatten, List.map_map]
  rfl

theorem concatenated_append (rows others : List Row) :
    Table.concatenated (rows ++ others) = Table.concatenated rows ++ Table.concatenated others := by
  rw [Table.concatenated, List.map_append, List.flatten_append]
  rfl

theorem frames_concatenated {format : RecordFormat} {rows : List Row}
    (h : ∀ row ∈ rows, format.IsRow row) :
    Frame.frames (Table.concatenated rows) = rows.map (·.2) := by
  apply Frame.frames_flatten
  intro record hrecord
  obtain ⟨row, hrow, rfl⟩ := List.mem_map.mp hrecord
  exact (h row hrow).isFrame

theorem mem_of_mem_latest {rows : List Row} {row : Row} (h : row ∈ latest rows) : row ∈ rows :=
  (latestBy_sublist _ rows).subset h

/-! ## The index along the rows -/

namespace Table

theorem indexFrom_append (offset : Nat) (index : Index) (rows others : List Row) :
    indexFrom offset index (rows ++ others) =
      indexFrom (offset + (rows.map (·.2.length)).sum) (indexFrom offset index rows) others := by
  induction rows generalizing offset index with
  | nil => simp [indexFrom]
  | cons row rest ih => simp [indexFrom, ih, Nat.add_assoc]

theorem indexFrom_concat (offset : Nat) (index : Index) (rows : List Row) (last : Row) :
    indexFrom offset index (rows ++ [last]) =
      (indexFrom offset index rows).put last.1 (offset + (rows.map (·.2.length)).sum) := by
  rw [indexFrom_append]
  rfl

/-- **The index has an entry for every row that counts, and no other.** -/
theorem offset?_indexFrom (offset : Nat) (rows : List Row) (key : Bytes) (position : Nat) :
    (indexFrom offset ∅ rows).offset? key = some position ↔
      ∃ row, (position, row) ∈ latestAt offset rows ∧ row.1 = key := by
  induction rows using List.reverseRecOn with
  | nil => simp [indexFrom, Index.offset?, latestAt, located, latestBy]
  | append_singleton rows last ih =>
    have hlatest : latestAt offset (rows ++ [last]) =
        (latestAt offset rows).filter (fun entry ↦ entry.2.1 ≠ last.1) ++
          [(offset + (rows.map (·.2.length)).sum, last)] := by
      rw [latestAt, located_append]
      exact latestBy_concat _ _ _
    rw [indexFrom_concat, Index.put, Index.offset?, Std.ExtTreeMap.getElem?_insert]
    by_cases hkey : last.1 = key
    · rw [if_pos (Std.compare_eq_iff_eq.mpr hkey)]
      simp only [hlatest, List.mem_append, List.mem_filter, List.mem_singleton]
      constructor
      · intro hposition
        cases hposition
        exact ⟨last, .inr rfl, hkey⟩
      · rintro ⟨row, hrow | hrow, hrowKey⟩
        · have hdistinct : row.1 ≠ last.1 := by simpa using hrow.2
          exact absurd (hrowKey.trans hkey.symm) hdistinct
        · cases hrow
          rfl
    · rw [if_neg fun heq ↦ hkey (Std.compare_eq_iff_eq.mp heq)]
      refine ih.trans ?_
      simp only [hlatest, List.mem_append, List.mem_filter, List.mem_singleton]
      constructor
      · rintro ⟨row, hrow, hrowKey⟩
        have hdistinct : row.1 ≠ last.1 := fun heq ↦ hkey (heq.symm.trans hrowKey)
        exact ⟨row, .inl ⟨hrow, by simpa using hdistinct⟩, hrowKey⟩
      · rintro ⟨row, hrow | hrow, hrowKey⟩
        · exact ⟨row, hrow.1, hrowKey⟩
        · cases hrow
          exact absurd hrowKey hkey

/-- The entries of the index are the rows that count. -/
theorem toList_indexFrom_perm (offset : Nat) (rows : List Row) :
    (indexFrom offset ∅ rows).toList.Perm
      ((latestAt offset rows).map fun entry ↦ (entry.2.1, entry.1)) := by
  have hkeys : (latestAt offset rows).Pairwise fun earlier later ↦ earlier.2.1 ≠ later.2.1 :=
    pairwise_latestBy _ _
  have hnodup : ((latestAt offset rows).map fun entry ↦ (entry.2.1, entry.1)).Nodup := by
    rw [List.nodup_iff_pairwise_ne, List.pairwise_map]
    refine hkeys.imp ?_
    intro earlier later hne heq
    exact hne (Prod.ext_iff.mp heq).1
  have hentries : (indexFrom offset ∅ rows).toList.Nodup := by
    rw [List.nodup_iff_pairwise_ne]
    refine Std.ExtTreeMap.distinct_keys_toList.imp ?_
    rintro earlier later hne rfl
    exact hne (Std.compare_eq_iff_eq.mpr rfl)
  apply (List.perm_ext_iff_of_nodup hentries hnodup).mpr
  rintro ⟨key, position⟩
  rw [Std.ExtTreeMap.mem_toList_iff_getElem?_eq_some]
  refine (offset?_indexFrom offset rows key position).trans ?_
  rw [List.mem_map]
  constructor
  · rintro ⟨row, hrow, rfl⟩
    exact ⟨(position, row), hrow, rfl⟩
  · rintro ⟨entry, hentry, heq⟩
    cases heq
    exact ⟨entry.2, hentry, rfl⟩

theorem size_indexFrom (offset : Nat) (rows : List Row) :
    (indexFrom offset ∅ rows).size = (latest rows).length := by
  calc
    (indexFrom offset ∅ rows).size = (indexFrom offset ∅ rows).toList.length :=
      Std.ExtTreeMap.length_toList.symm
    _ = ((latestAt offset rows).map fun entry ↦ (entry.2.1, entry.1)).length :=
      (toList_indexFrom_perm offset rows).length_eq
    _ = ((latestAt offset rows).map (·.2)).length := by rw [List.length_map, List.length_map]
    _ = (latest rows).length := by rw [map_snd_latestAt]

end Table

namespace Index

/-- The offsets in an index are those of its entries. -/
theorem values_eq (index : Index) : index.values = index.toList.map (·.2) := by
  have hvalues : index.values = index.foldr (fun _ offset offsets ↦ offset :: offsets) [] := by
    obtain ⟨inner⟩ := index
    induction inner using Std.ExtDTreeMap.inductionOn with
    | mk tree => rfl
  rw [hvalues, Std.ExtTreeMap.foldr_eq_foldr_toList]
  induction index.toList with
  | nil => rfl
  | cons entry rest ih => rw [List.foldr_cons, ih, List.map_cons]

end Index

namespace Table

/-- **Reading the index in the order of its offsets goes through the rows that count in order.** -/
theorem liveOffsets_indexFrom {offset : Nat} {rows : List Row}
    (h : ∀ row ∈ rows, 0 < row.2.length) :
    (indexFrom offset ∅ rows).liveOffsets = (latestAt offset rows).map (·.1) := by
  have hascending : ((latestAt offset rows).map (·.1)).Pairwise (· ≤ ·) := by
    rw [List.pairwise_map]
    exact ((pairwise_located h).sublist (latestBy_sublist _ _)).imp Nat.le_of_lt
  have hsorted : (indexFrom offset ∅ rows).liveOffsets.Pairwise (· ≤ ·) := by
    have hmerge : (indexFrom offset ∅ rows).liveOffsets.Pairwise
        fun a b ↦ decide (a ≤ b) = true := by
      apply List.pairwise_mergeSort
      · intro a b c hab hbc
        rw [decide_eq_true_eq] at *
        exact Nat.le_trans hab hbc
      · intro a b
        rw [Bool.or_eq_true, decide_eq_true_eq, decide_eq_true_eq]
        exact Nat.le_total a b
    exact hmerge.imp of_decide_eq_true
  have hperm : (indexFrom offset ∅ rows).liveOffsets.Perm ((latestAt offset rows).map (·.1)) := by
    refine (List.mergeSort_perm _ _).trans ?_
    rw [Index.values_eq]
    have hentries := (toList_indexFrom_perm offset rows).map (·.2)
    rwa [List.map_map] at hentries
  exact hperm.eq_of_pairwise (fun _ _ _ _ ↦ Nat.le_antisymm) hsorted hascending

/-- Of the rows at their offsets, the index keeps those that count. -/
theorem filter_isCurrent {offset : Nat} {rows : List Row} (h : ∀ row ∈ rows, 0 < row.2.length) :
    (located (·.2.length) offset rows).filter
        (fun entry ↦ (indexFrom offset ∅ rows).isCurrent entry.2.1 entry.1) =
      latestAt offset rows := by
  have hoffsets : ((located (fun row : Row ↦ row.2.length) offset rows).map (·.1)).Nodup := by
    rw [List.nodup_iff_pairwise_ne, List.pairwise_map]
    exact (pairwise_located h).imp Nat.ne_of_lt
  have hsublist : (latestAt offset rows).Sublist (located (·.2.length) offset rows) :=
    latestBy_sublist _ _
  apply filter_eq_of_sublist hsublist (List.Nodup.of_map _ hoffsets)
  rintro ⟨position, row⟩ hmem
  rw [Index.isCurrent, beq_iff_eq]
  refine (offset?_indexFrom offset rows row.1 position).trans ?_
  constructor
  · rintro ⟨other, hother, _⟩
    have hsame : (position, other) = (position, row) :=
      List.inj_on_of_nodup_map hoffsets (hsublist.subset hother) hmem rfl
    exact hsame ▸ hother
  · intro hrow
    exact ⟨row, hrow, rfl⟩

end Table

end TableStore

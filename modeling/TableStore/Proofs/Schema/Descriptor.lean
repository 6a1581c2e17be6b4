import TableStore.Proofs.Schema.Valid
import TableStore.Schema.Store

/-!
# Reading descriptors back

Every part of a descriptor is read off the front of the bytes that were written for it, whatever
follows. A schema that passes the check therefore comes back from its descriptor, under the name
it had. A schema that is loaded has the name it was asked for.
-/

namespace TableStore.Descriptor

/-! ## Parts -/

theorem takeNumber_append {n : Nat} (h : n ≤ Schema.limit) (rest : Bytes) :
    takeNumber (LittleEndian.encode 2 n ++ rest) = .ok (n, rest) := by
  have hlimit : Schema.limit < 256 ^ 2 := by decide
  have hsplit := Bytes.split?_append (LittleEndian.encode 2 n) rest
  rw [LittleEndian.length_encode] at hsplit
  rw [takeNumber, hsplit]
  dsimp only
  rw [LittleEndian.decode_encode (by omega)]

theorem takeName_append {name : String} (h : name.utf8ByteSize ≤ Schema.limit) (rest : Bytes) :
    takeName (nameBytes name ++ rest) = .ok (name, rest) := by
  have hsplit := Bytes.split?_append (Utf8.encode name) rest
  rw [Utf8.length_encode] at hsplit
  rw [takeName, nameBytes, List.append_assoc, takeNumber_append h]
  dsimp only
  rw [hsplit]
  dsimp only
  rw [Utf8.decode_encode]

theorem typeOfTag?_typeTag (type : ColumnType) : typeOfTag? (typeTag type) = some type := by
  cases type <;> rfl

theorem takeColumn_append {column : Column} (h : column.name.utf8ByteSize ≤ Schema.limit)
    (rest : Bytes) : takeColumn (columnBytes column ++ rest) = .ok (column, rest) := by
  rw [takeColumn, columnBytes, List.append_assoc, takeName_append h]
  dsimp only [List.cons_append, List.nil_append]
  rw [typeOfTag?_typeTag]

theorem takeColumns_append {columns : List Column}
    (h : ∀ column ∈ columns, column.name.utf8ByteSize ≤ Schema.limit) (read : List Column)
    (rest : Bytes) :
    takeColumns read columns.length (columns.flatMap columnBytes ++ rest) =
      .ok (read.reverse ++ columns, rest) := by
  induction columns generalizing read with
  | nil => rw [List.length_nil, takeColumns, List.append_nil]; rfl
  | cons column others ih =>
    have hcolumn : column.name.utf8ByteSize ≤ Schema.limit := h column (by simp)
    have hothers : ∀ other ∈ others, other.name.utf8ByteSize ≤ Schema.limit :=
      fun other hother ↦ h other (by simp [hother])
    rw [List.length_cons, takeColumns, List.flatMap_cons, List.append_assoc,
      takeColumn_append hcolumn]
    dsimp only
    rw [ih hothers, List.reverse_cons, List.append_assoc, List.singleton_append]

/-! ## Whole descriptors -/

theorem readBody_append {schema : Schema} (h : schema.IsValid) :
    readBody schema.name (LittleEndian.encode 2 schema.columns.length ++
      (schema.columns.flatMap columnBytes ++ nameBytes schema.primaryKey)) = .ok schema := by
  obtain ⟨column, hcolumn, hkey⟩ := h.key_mem
  have hshort : schema.primaryKey.utf8ByteSize ≤ Schema.limit :=
    hkey ▸ h.column_names_short column hcolumn
  have hname := takeName_append hshort []
  rw [List.append_nil] at hname
  rw [readBody, takeNumber_append h.columns_few]
  dsimp only
  rw [takeColumns_append h.column_names_short]
  dsimp only
  rw [hname]
  rfl

theorem readContent_content {schema : Schema} (h : schema.IsValid) :
    readContent schema.name (content schema) = .ok schema := by
  have hcontent : content schema = magic ++ (LittleEndian.encode 2 version ++
      (LittleEndian.encode 2 schema.columns.length ++
        (schema.columns.flatMap columnBytes ++ nameBytes schema.primaryKey))) := by
    simp only [content, List.append_assoc]
  rw [hcontent]
  exact readBody_append h

/-- The name of the table has no part in what is read. -/
theorem readBody_named (name other : String) (bytes : Bytes) :
    readBody other bytes =
      (readBody name bytes).map fun schema ↦ { schema with name := other } := by
  unfold readBody
  cases takeNumber bytes with
  | error fault => rfl
  | ok count =>
    obtain ⟨count, rest⟩ := count
    dsimp only
    cases takeColumns [] count rest with
    | error fault => rfl
    | ok columns =>
      obtain ⟨columns, rest⟩ := columns
      dsimp only
      cases takeName rest with
      | error fault => rfl
      | ok key =>
        obtain ⟨key, rest⟩ := key
        cases rest <;> rfl

theorem readContent_named (name other : String) (bytes : Bytes) :
    readContent other bytes =
      (readContent name bytes).map fun schema ↦ { schema with name := other } := by
  unfold readContent
  dsimp only
  split
  · rfl
  · split
    · rfl
    · exact readBody_named name other _

/-- Under any name the content of a descriptor is the schema under that name. -/
theorem readContent_content_named {schema : Schema} (h : schema.IsValid) (name : String) :
    readContent name (content schema) = .ok { schema with name } := by
  rw [readContent_named schema.name, readContent_content h]
  rfl

/-- What is read behind a checksum that is right is the content, and then checked. -/
theorem read_withChecksum_eq {bytes : Bytes} (hlong : magic.length + 2 ≤ bytes.length)
    (name : String) :
    read name (withChecksum bytes) =
      match readContent name bytes with
      | .error fault => .error fault
      | .ok schema =>
        match schema.check with
        | .error fault => .error (.schema fault)
        | .ok () => .ok schema := by
  have hsum : (LittleEndian.encode checksumLength (Checksum.crc32 bytes).toNat).length =
      checksumLength := LittleEndian.length_encode _ _
  have hlength : (withChecksum bytes).length - checksumLength = bytes.length := by
    rw [withChecksum, List.length_append, hsum, Nat.add_sub_cancel]
  have hfront : (withChecksum bytes).take bytes.length = bytes := List.take_left
  have hback : (withChecksum bytes).drop bytes.length =
      LittleEndian.encode checksumLength (Checksum.crc32 bytes).toNat := List.drop_left
  have hdecode : LittleEndian.decode (LittleEndian.encode checksumLength
      (Checksum.crc32 bytes).toNat) = (Checksum.crc32 bytes).toNat :=
    LittleEndian.decode_encode (Checksum.crc32 bytes).toNat_lt
  have hshort : ¬ (withChecksum bytes).length < magic.length + 2 + checksumLength := by
    rw [withChecksum, List.length_append, hsum]
    omega
  rw [read, if_neg hshort, hlength, hfront, hback]
  dsimp only
  rw [hdecode]
  exact if_neg fun hne ↦ hne rfl

theorem length_content (schema : Schema) : magic.length + 2 ≤ (content schema).length := by
  simp only [content, List.length_append, LittleEndian.length_encode]
  omega

/-- **A schema comes back from its descriptor under any name that a table can have**, and under no
other. -/
theorem read_withChecksum_named {schema : Schema} (h : schema.check = .ok ()) (name : String) :
    read name (withChecksum (content schema)) =
      match Schema.checkName name with
      | .error fault => .error (.schema fault)
      | .ok () => .ok { schema with name } := by
  rw [read_withChecksum_eq (length_content schema),
    readContent_content_named (Schema.isValid_of_check h)]
  dsimp only
  rw [Schema.check_named h]

/-- **A schema comes back from its descriptor.** -/
theorem read_withChecksum {schema : Schema} (h : schema.check = .ok ()) :
    read schema.name (withChecksum (content schema)) = .ok schema := by
  rw [read_withChecksum_named h, Schema.checkName_of_check h]

theorem decode_eq_of_validate {schema : Schema} (h : schema.validate = .ok ()) :
    decode schema.name (withChecksum (content schema)) = .ok schema := by
  rw [decode, read_withChecksum (Schema.check_of_validate h)]
  rfl

/-! ## What has been read -/

theorem name_of_readBody {name : String} {bytes : Bytes} {schema : Schema}
    (h : readBody name bytes = .ok schema) : schema.name = name := by
  unfold readBody at h
  split at h
  · cases h
  · split at h
    · cases h
    · split at h
      · cases h
      · cases h
        rfl
      · cases h

theorem of_read_eq_ok {name : String} {bytes : Bytes} {schema : Schema}
    (h : read name bytes = .ok schema) : schema.name = name ∧ schema.check = .ok () := by
  unfold read at h
  split at h
  · cases h
  · dsimp only at h
    split at h
    · cases h
    · split at h
      · cases h
      · next hcontent =>
        split at h
        · cases h
        · next hcheck =>
          cases h
          refine ⟨?_, hcheck⟩
          unfold readContent at hcontent
          dsimp only at hcontent
          split at hcontent
          · cases hcontent
          · split at hcontent
            · cases hcontent
            · exact name_of_readBody hcontent

/-- A schema that is loaded has the name it was asked for, and is sound. -/
theorem of_load_eq_ok {disk : Disk} {route : Route} {name : String} {schema : Schema}
    (h : load disk route name = .ok schema) : schema.name = name ∧ schema.check = .ok () := by
  unfold load at h
  split at h
  · cases h
  · next bytes _ =>
    cases hread : read name bytes with
    | error fault => rw [decode, hread] at h; cases h
    | ok found =>
      rw [decode, hread] at h
      cases h
      exact of_read_eq_ok hread

theorem name_of_load {disk : Disk} {route : Route} {name : String} {schema : Schema}
    (h : load disk route name = .ok schema) : schema.name = name :=
  (of_load_eq_ok h).1

/-- A schema that is loaded has a record format. -/
theorem exists_format_of_load {disk : Disk} {route : Route} {name : String} {schema : Schema}
    (h : load disk route name = .ok schema) :
    ∃ format, RecordFormat.ofSchema schema = .ok format :=
  (Schema.isValid_of_check (of_load_eq_ok h).2).exists_format

end TableStore.Descriptor

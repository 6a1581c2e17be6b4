import TableStore.Proofs.Unguarded.Record
import TableStore.Schema.Descriptor

/-!
# Descriptors are read within range

A reader of descriptors makes sure once that there are bytes enough for the magic, the version and
the checksum, and reaches for all three without looking again. Behind them it looks for every
length. So a descriptor is read within range as well, under any name, and whatever it turns out to
be the failure is one of the descriptor.
-/

namespace TableStore

namespace Unguarded

/-- A fault in a descriptor. -/
def descriptorFault {α : Type} (fault : DescriptorFault) : Unguarded α :=
  .failed (.corruptSchema fault)

/-! ## Parts -/

/-- Reads a number of two bytes. -/
def takeNumber (bytes : Bytes) : Unguarded (Nat × Bytes) :=
  if bytes.length < 2 then descriptorFault .lengthCut else number 2 bytes

/-- Reads a name. -/
def takeName (bytes : Bytes) : Unguarded (String × Bytes) := do
  let (length, bytes) ← takeNumber bytes
  if bytes.length < length then descriptorFault .nameCut
  else do
    let name ← front length bytes
    match Utf8.decode name with
    | .error fault => descriptorFault (.nameNotText fault)
    | .ok text => do
      let rest ← behind length bytes
      return (text, rest)

/-- Reads so many columns, and puts them in reverse in front of those already read. -/
def takeColumns (read : List Column) : Nat → Bytes → Unguarded (List Column × Bytes)
  | 0, bytes => return (read.reverse, bytes)
  | count + 1, bytes => do
    let (name, bytes) ← takeName bytes
    if bytes.length = 0 then descriptorFault .typeCut
    else do
      let tag ← member bytes 0
      let rest ← behind 1 bytes
      match Descriptor.typeOfTag? tag with
      | none => descriptorFault (.unknownType tag)
      | some type => takeColumns (⟨name, type⟩ :: read) count rest

/-- Reads the columns and the primary key, which must be all there is, and checks the schema. -/
def takeSchema (name : String) (bytes : Bytes) : Unguarded Schema := do
  let (count, bytes) ← takeNumber bytes
  let (columns, bytes) ← takeColumns [] count bytes
  let (key, rest) ← takeName bytes
  if rest.length ≠ 0 then descriptorFault (.trailing rest.length)
  else
    match Schema.check ⟨name, columns, key⟩ with
    | .error fault => descriptorFault (.schema fault)
    | .ok () => return ⟨name, columns, key⟩

/-- Reads the magic, the version and the rest. -/
def takeContent (name : String) (bytes : Bytes) : Unguarded Schema := do
  let found ← front 4 bytes
  if found ≠ Descriptor.magic then descriptorFault (.magic found)
  else do
    let rest ← behind 4 bytes
    let (version, rest) ← number 2 rest
    if version ≠ Descriptor.version then descriptorFault (.version version)
    else takeSchema name rest

/-- The schema in a descriptor for the table called `name`. -/
def decodeDescriptor (name : String) (bytes : Bytes) : Unguarded Schema :=
  if bytes.length < Descriptor.magic.length + 2 + Descriptor.checksumLength then
    descriptorFault (.tooShort bytes.length)
  else do
    let border ← minus bytes.length Descriptor.checksumLength
    let (content, trailer) ← split border bytes
    let (stored, _) ← number 4 trailer
    let computed := Checksum.crc32 content
    if stored ≠ computed.toNat then
      descriptorFault (.checksum (UInt32.ofNat stored) computed)
    else takeContent name content

/-- What comes of a reading of a descriptor that keeps within range. -/
def ofDescriptor {α : Type} (outcome : Except DescriptorFault α) : Unguarded α :=
  ofExcept (outcome.mapError .corruptSchema)

/-! ## Parts within range -/

theorem takeNumber_eq (bytes : Bytes) :
    takeNumber bytes = ofDescriptor (Descriptor.takeNumber bytes) := by
  rw [takeNumber, Descriptor.takeNumber]
  cases hsplit : Bytes.split? 2 bytes with
  | none =>
    rw [if_pos (Bytes.split?_eq_none_iff.mp hsplit)]
    rfl
  | some pair =>
    rw [if_neg (not_lt_of_split? hsplit), number_of_split? hsplit]
    rfl

theorem takeName_eq (bytes : Bytes) :
    takeName bytes = ofDescriptor (Descriptor.takeName bytes) := by
  rw [takeName, takeNumber_eq, Descriptor.takeName]
  cases Descriptor.takeNumber bytes with
  | error fault => rfl
  | ok pair =>
    obtain ⟨length, rest⟩ := pair
    dsimp only [ofDescriptor, Except.mapError, ofExcept]
    rw [done_bind]
    dsimp only
    cases hsplit : Bytes.split? length rest with
    | none =>
      rw [if_pos (Bytes.split?_eq_none_iff.mp hsplit)]
      rfl
    | some pair =>
      rw [if_neg (not_lt_of_split? hsplit), front_of_split? hsplit, done_bind,
        behind_of_split? hsplit]
      dsimp only
      cases Utf8.decode pair.1 with
      | error fault => rfl
      | ok text => rfl

/-- **The columns of a descriptor are read within range.** -/
theorem takeColumns_eq (read : List Column) (count : Nat) (bytes : Bytes) :
    takeColumns read count bytes = ofDescriptor (Descriptor.takeColumns read count bytes) := by
  induction count generalizing read bytes with
  | zero => rfl
  | succ count ih =>
    rw [takeColumns, takeName_eq, Descriptor.takeColumns, Descriptor.takeColumn]
    cases Descriptor.takeName bytes with
    | error fault => rfl
    | ok pair =>
      obtain ⟨name, rest⟩ := pair
      dsimp only [ofDescriptor, Except.mapError, ofExcept]
      rw [done_bind]
      cases rest with
      | nil => rfl
      | cons tag rest =>
        have hsplit : Bytes.split? 1 (tag :: rest) = some ([tag], rest) :=
          Bytes.split?_append [tag] rest
        have hthere : ¬ (tag :: rest).length = 0 := Nat.succ_ne_zero rest.length
        dsimp only
        rw [if_neg hthere, member_of_lt (Nat.pos_of_ne_zero hthere), behind_of_split? hsplit,
          done_bind, done_bind, List.getElem_cons_zero]
        cases Descriptor.typeOfTag? tag with
        | none => rfl
        | some type => exact ih _ rest

/-! ## Descriptors within range -/

/-- A schema that has been read is checked. -/
def checked (outcome : Except DescriptorFault Schema) : Except DescriptorFault Schema :=
  match outcome with
  | .error fault => .error fault
  | .ok schema =>
    match schema.check with
    | .error fault => .error (.schema fault)
    | .ok () => .ok schema

theorem takeSchema_eq (name : String) (bytes : Bytes) :
    takeSchema name bytes = ofDescriptor (checked (Descriptor.readBody name bytes)) := by
  rw [takeSchema, takeNumber_eq, Descriptor.readBody]
  cases Descriptor.takeNumber bytes with
  | error fault => rfl
  | ok pair =>
    obtain ⟨count, bytes⟩ := pair
    dsimp only [ofDescriptor, Except.mapError, ofExcept]
    rw [done_bind]
    dsimp only
    rw [takeColumns_eq]
    cases Descriptor.takeColumns [] count bytes with
    | error fault => rfl
    | ok pair =>
      obtain ⟨columns, bytes⟩ := pair
      dsimp only [ofDescriptor, Except.mapError, ofExcept]
      rw [done_bind]
      dsimp only
      rw [takeName_eq]
      cases Descriptor.takeName bytes with
      | error fault => rfl
      | ok pair =>
        obtain ⟨key, rest⟩ := pair
        cases rest with
        | cons b rest => rfl
        | nil =>
          dsimp only [ofDescriptor, Except.mapError, ofExcept, checked]
          rw [done_bind, if_neg (fun hne ↦ hne rfl)]
          cases Schema.check ⟨name, columns, key⟩ with
          | error fault => rfl
          | ok _ => rfl

/-- **The content of a descriptor is read within range**, if it is long enough for the magic and the
version. -/
theorem takeContent_eq {bytes : Bytes} (h : 6 ≤ bytes.length) (name : String) :
    takeContent name bytes = ofDescriptor (checked (Descriptor.readContent name bytes)) := by
  have hfound : Bytes.split? 4 bytes = some (bytes.take 4, bytes.drop 4) :=
    Bytes.split?_eq_some_iff.mpr
      ⟨(List.take_append_drop 4 bytes).symm, List.length_take_of_le (by omega)⟩
  have hversion : Bytes.split? 2 (bytes.drop 4) =
      some ((bytes.drop 4).take 2, (bytes.drop 4).drop 2) := by
    refine Bytes.split?_eq_some_iff.mpr
      ⟨(List.take_append_drop 2 _).symm, List.length_take_of_le ?_⟩
    rw [List.length_drop]
    omega
  rw [takeContent, front_of_split? hfound, done_bind, behind_of_split? hfound,
    Descriptor.readContent]
  dsimp only
  by_cases hmagic : bytes.take 4 ≠ Descriptor.magic
  · rw [if_pos hmagic, if_pos hmagic]
    rfl
  · rw [if_neg hmagic, if_neg hmagic, done_bind, number_of_split? hversion, done_bind]
    dsimp only
    by_cases hnumber : LittleEndian.decode ((bytes.drop 4).take 2) ≠ Descriptor.version
    · rw [if_pos hnumber, if_pos hnumber]
      rfl
    · rw [if_neg hnumber, if_neg hnumber, List.drop_drop]
      exact takeSchema_eq name _

/-- **A descriptor is decoded within range.** -/
theorem decodeDescriptor_eq (name : String) (bytes : Bytes) :
    decodeDescriptor name bytes = ofExcept (Descriptor.decode name bytes) := by
  rw [decodeDescriptor, Descriptor.decode, Descriptor.read]
  by_cases hshort : bytes.length < Descriptor.magic.length + 2 + Descriptor.checksumLength
  · rw [if_pos hshort, if_pos hshort]
    rfl
  · rw [if_neg hshort, if_neg hshort]
    have hlong : 10 ≤ bytes.length := Nat.not_lt.mp hshort
    have hwidth : Descriptor.checksumLength = 4 := rfl
    let border := bytes.length - Descriptor.checksumLength
    have hsplit : Bytes.split? border bytes = some (bytes.take border, bytes.drop border) :=
      Bytes.split?_eq_some_iff.mpr
        ⟨(List.take_append_drop border bytes).symm, List.length_take_of_le (Nat.sub_le _ _)⟩
    have htrailer : (bytes.drop border).length = 4 := by
      rw [List.length_drop]
      omega
    have hcontent : 6 ≤ (bytes.take border).length := by
      rw [List.length_take]
      omega
    rw [minus_of_le (by omega), done_bind, split_of_split? hsplit, done_bind]
    dsimp only
    rw [number_of_length htrailer, done_bind]
    dsimp only
    split
    · rfl
    · exact takeContent_eq hcontent name

/-! ## Whatever the bytes are -/

/-- What it means for a record to be read within range. -/
structure ReadsRecord (format : RecordFormat) (record : Bytes) : Prop where
  decode : decode format record = ofExcept (format.decode record)
  decodeKey : decodeKey format record = ofExcept (format.decodeKey record)
  /-- There is an item, or the record is corrupt. -/
  outcome : (∃ item, format.decode record = .ok item) ∨
    ∃ fault, format.decode record = .error (.corruptRecord fault)
  /-- There is a key, or the record is corrupt, but not because the columns have ended before the
  key has been met. -/
  keyOutcome : (∃ key, format.decodeKey record = .ok key) ∨
    ∃ fault, fault ≠ .keyMissing ∧ format.decodeKey record = .error (.corruptRecord fault)

/-- What it means for a descriptor to be read within range. -/
structure ReadsDescriptor (name : String) (bytes : Bytes) : Prop where
  decode : decodeDescriptor name bytes = ofExcept (Descriptor.decode name bytes)
  /-- There is a schema, or the descriptor is corrupt. -/
  outcome : (∃ schema, Descriptor.decode name bytes = .ok schema) ∨
    ∃ fault, Descriptor.decode name bytes = .error (.corruptSchema fault)

theorem readsRecord (format : RecordFormat) (record : Bytes) : ReadsRecord format record where
  decode := decode_eq format record
  decodeKey := decodeKey_eq format record
  outcome := by
    rw [RecordFormat.decode]
    cases format.read record with
    | ok item => exact .inl ⟨item, rfl⟩
    | error fault => exact .inr ⟨fault, rfl⟩
  keyOutcome := by
    rw [RecordFormat.decodeKey]
    cases hkey : format.readKey record with
    | ok key => exact .inl ⟨key, rfl⟩
    | error fault =>
      refine .inr ⟨fault, ?_, rfl⟩
      rintro rfl
      exact readKey_ne_keyMissing format record hkey

theorem readsDescriptor (name : String) (bytes : Bytes) : ReadsDescriptor name bytes where
  decode := decodeDescriptor_eq name bytes
  outcome := by
    rw [Descriptor.decode]
    cases Descriptor.read name bytes with
    | ok schema => exact .inl ⟨schema, rfl⟩
    | error fault => exact .inr ⟨fault, rfl⟩

/-- **Records and descriptors are read within range**, whatever their bytes are: the records of any
schema that has a format, valid or not, and descriptors under any name. -/
theorem reads_record_and_descriptor :
    (∀ schema format, RecordFormat.ofSchema schema = .ok format →
      ∀ record, ReadsRecord format record) ∧ ∀ name bytes, ReadsDescriptor name bytes :=
  ⟨fun _ format _ record ↦ readsRecord format record, readsDescriptor⟩

/-- A schema with two columns of one name, which is not valid but has a format. -/
def twinSchema : Schema := ⟨"twins", [⟨"id", .text⟩, ⟨"id", .integer⟩], "id"⟩

/-- A record of a text that claims to be longer than what is left. -/
def overlongRecord : Bytes := [7, 0, 0, 0, 1, 200, 0, 0, 0, 65, 66]

/-- The record is refused when its text is looked for, and a descriptor that has been cut off is
refused at once. -/
theorem reads_record_and_descriptor_overlong :
    ∃ format, RecordFormat.ofSchema twinSchema = .ok format ∧ ReadsRecord format overlongRecord ∧
      decodeKey format overlongRecord = .failed (.corruptRecord (.textTooLong 200 "id")) ∧
      ReadsDescriptor "twins" (Descriptor.magic ++ [1, 0]) ∧
      decodeDescriptor "twins" (Descriptor.magic ++ [1, 0]) =
        .failed (.corruptSchema (.tooShort 6)) := by
  have hformat : RecordFormat.ofSchema twinSchema =
      .ok ⟨twinSchema.columns, 0, Nat.zero_lt_two⟩ := by rfl
  obtain ⟨hrecords, hdescriptors⟩ := reads_record_and_descriptor
  exact ⟨_, hformat, hrecords twinSchema _ hformat overlongRecord, by rfl,
    hdescriptors "twins" _, by rfl⟩

end Unguarded

end TableStore

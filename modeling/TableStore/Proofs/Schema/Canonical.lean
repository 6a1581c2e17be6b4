import TableStore.Proofs.Schema.Descriptor

/-!
# Descriptors have one written form

Whatever is accepted when a descriptor is read is what writing would have put there. A number of two
bytes is written as it was, a name is as long as the number in front of it says, every type has one
byte of its own, and the key ends where the checksum starts. So each part that has been read off the
front of some bytes stands there as it would be written. The checksum adds nothing to this but that
it is the one of the bytes in front of it, whatever function it is.
-/

namespace TableStore.Descriptor

variable {bytes rest : Bytes} {name : String} {schema : Schema}

/-! ## Parts -/

/-- A number of two bytes is the one that stands in front. -/
theorem of_takeNumber_eq_ok {n : Nat} (h : takeNumber bytes = .ok (n, rest)) :
    bytes = LittleEndian.encode 2 n ++ rest := by
  unfold takeNumber at h
  split at h
  · cases h
  · next hsplit =>
    cases h
    obtain ⟨rfl, hwidth⟩ := Bytes.split?_eq_some_iff.mp hsplit
    rw [← hwidth, LittleEndian.encode_decode]

/-- A name that has been read stands in front, with its length. -/
theorem of_takeName_eq_ok (h : takeName bytes = .ok (name, rest)) :
    bytes = nameBytes name ++ rest := by
  unfold takeName at h
  split at h
  · cases h
  · next length behind hnumber =>
    split at h
    · cases h
    · next hsplit =>
      split at h
      · cases h
      · next hdecode =>
        cases h
        obtain ⟨rfl, hlength⟩ := Bytes.split?_eq_some_iff.mp hsplit
        rw [← Utf8.encode_of_decode hdecode, Utf8.length_encode] at hlength
        rw [of_takeNumber_eq_ok hnumber, nameBytes, hlength, Utf8.encode_of_decode hdecode,
          List.append_assoc]

/-- No two bytes stand for the same type. -/
theorem typeTag_of_typeOfTag? {tag : UInt8} {type : ColumnType} (h : typeOfTag? tag = some type) :
    typeTag type = tag := by
  unfold typeOfTag? at h
  split at h
  · next htag => cases h; exact htag.symm
  · split at h
    · next htag => cases h; exact htag.symm
    · split at h
      · next htag => cases h; exact htag.symm
      · split at h
        · next htag => cases h; exact htag.symm
        · cases h

theorem of_takeColumn_eq_ok {column : Column} (h : takeColumn bytes = .ok (column, rest)) :
    bytes = columnBytes column ++ rest := by
  unfold takeColumn at h
  split at h
  · cases h
  · cases h
  · next hname =>
    split at h
    · cases h
    · next htype =>
      cases h
      rw [of_takeName_eq_ok hname, columnBytes, typeTag_of_typeOfTag? htype, List.append_assoc,
        List.singleton_append]

/-- **Columns that have been read stand in front, one after the other**, and are as many as were
asked for. -/
theorem of_takeColumns_eq_ok {read columns : List Column} {count : Nat}
    (h : takeColumns read count bytes = .ok (columns, rest)) :
    ∃ taken, columns = read.reverse ++ taken ∧ taken.length = count ∧
      bytes = taken.flatMap columnBytes ++ rest := by
  induction count generalizing read bytes with
  | zero =>
    cases h
    exact ⟨[], by simp⟩
  | succ count ih =>
    rw [takeColumns] at h
    split at h
    · cases h
    · next column behind hcolumn =>
      obtain ⟨taken, rfl, rfl, rfl⟩ := ih h
      refine ⟨column :: taken, ?_, rfl, ?_⟩
      · rw [List.reverse_cons, List.append_assoc, List.singleton_append]
      · rw [of_takeColumn_eq_ok hcolumn, List.flatMap_cons, List.append_assoc]

/-! ## Whole descriptors -/

theorem of_readBody_eq_ok (h : readBody name bytes = .ok schema) :
    bytes = LittleEndian.encode 2 schema.columns.length ++
      (schema.columns.flatMap columnBytes ++ nameBytes schema.primaryKey) := by
  unfold readBody at h
  split at h
  · cases h
  · next hnumber =>
    split at h
    · cases h
    · next hcolumns =>
      split at h
      · cases h
      · next hkey =>
        cases h
        obtain ⟨taken, rfl, rfl, rfl⟩ := of_takeColumns_eq_ok hcolumns
        rw [of_takeNumber_eq_ok hnumber, of_takeName_eq_ok hkey, List.append_nil]
      · cases h

/-- A content that is accepted starts with the magic and the version. -/
theorem content_of_readContent (hlong : 6 ≤ bytes.length)
    (h : readContent name bytes = .ok schema) : content schema = bytes := by
  unfold readContent at h
  dsimp only at h
  split at h
  · cases h
  · next hmagic =>
    split at h
    · cases h
    · next hversion =>
      have hwidth : ((bytes.drop 4).take 2).length = 2 := by
        rw [List.length_take, List.length_drop]
        omega
      have hnumber := LittleEndian.encode_decode ((bytes.drop 4).take 2)
      rw [hwidth, Decidable.not_not.mp hversion] at hnumber
      calc
        content schema = magic ++ (LittleEndian.encode 2 version ++
            (LittleEndian.encode 2 schema.columns.length ++
              (schema.columns.flatMap columnBytes ++ nameBytes schema.primaryKey))) := by
          simp only [content, List.append_assoc]
        _ = bytes.take 4 ++ ((bytes.drop 4).take 2 ++ (bytes.drop 4).drop 2) := by
          rw [← of_readBody_eq_ok h, hnumber, ← Decidable.not_not.mp hmagic, List.drop_drop]
        _ = bytes := by rw [List.take_append_drop, List.take_append_drop]

/-- **A descriptor that has been read is the one that its schema is written as.** -/
theorem withChecksum_of_read (h : read name bytes = .ok schema) :
    withChecksum (content schema) = bytes := by
  have hmagic : magic.length = 4 := rfl
  have hchecksum : checksumLength = 4 := rfl
  unfold read at h
  split at h
  · cases h
  · next hshort =>
    dsimp only at h
    split at h
    · cases h
    · next hsum =>
      split at h
      · cases h
      · next hcontent =>
        split at h
        · cases h
        · cases h
          have hstored : (bytes.drop (bytes.length - checksumLength)).length = checksumLength := by
            rw [List.length_drop]
            omega
          have hlong : 6 ≤ (bytes.take (bytes.length - checksumLength)).length := by
            rw [List.length_take]
            omega
          have hagain :=
            LittleEndian.encode_decode (bytes.drop (bytes.length - checksumLength))
          rw [hstored, Decidable.not_not.mp hsum] at hagain
          rw [withChecksum, content_of_readContent hlong hcontent, hagain, List.take_append_drop]

/-- **Schemas and descriptors belong together one to one.** Every valid schema has a descriptor,
from which it comes back under its name. Whatever bytes are accepted under a name are the descriptor
of a valid schema of that name. -/
theorem encode_and_decode_are_inverse :
    (∀ schema : Schema, schema.validate = .ok () →
      ∃ bytes, encode schema = .ok bytes ∧ decode schema.name bytes = .ok schema) ∧
    ∀ name bytes schema, decode name bytes = .ok schema →
      schema.validate = .ok () ∧ schema.name = name ∧ encode schema = .ok bytes := by
  constructor
  · intro schema hvalid
    exact ⟨_, by rw [encode, hvalid], decode_eq_of_validate hvalid⟩
  · intro name bytes schema hdecode
    cases hread : read name bytes with
    | error fault => rw [decode, hread] at hdecode; cases hdecode
    | ok found =>
      rw [decode, hread] at hdecode
      cases hdecode
      obtain ⟨hname, hcheck⟩ := of_read_eq_ok hread
      have hvalid : schema.validate = .ok () := by
        rw [Schema.validate, hcheck]
        rfl
      refine ⟨hvalid, hname, ?_⟩
      rw [encode, hvalid]
      dsimp only
      rw [withChecksum_of_read hread]

/-- A schema with a column of every type, and a column whose name is longer in bytes than in
characters. -/
def booksSchema : Schema :=
  ⟨"books", [⟨"isbn", .text⟩, ⟨"prix €", .float⟩, ⟨"pages", .integer⟩, ⟨"in stock", .boolean⟩],
    "isbn"⟩

theorem encode_and_decode_are_inverse_books :
    booksSchema.validate = .ok () ∧
      ∃ bytes, encode booksSchema = .ok bytes ∧ bytes.length = 55 ∧
        decode "books" bytes = .ok booksSchema ∧ booksSchema.name = "books" := by
  have hvalid : booksSchema.validate = .ok () := by rfl
  obtain ⟨hcomes, hbelongs⟩ := encode_and_decode_are_inverse
  obtain ⟨bytes, hencode, hdecode⟩ := hcomes booksSchema hvalid
  obtain ⟨_, hname, hagain⟩ := hbelongs "books" bytes booksSchema hdecode
  have hlength : bytes.length = 55 := by
    rw [encode, hvalid] at hencode
    cases hencode
    decide
  exact ⟨hvalid, bytes, hagain, hlength, hdecode, hname⟩

end TableStore.Descriptor

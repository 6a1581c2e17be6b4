import TableStore.Proofs.Checksum
import TableStore.Proofs.Schema.Canonical

/-!
# Damaged descriptors are refused

The last four bytes of a descriptor are the checksum of the others. If a descriptor is damaged, but
only within four bytes in a row, these are no longer the checksum of the others, whether the damage
is in front of them, among them, or on both sides of the border. So the descriptor is refused for
its checksum, before anything else in it is looked at.
-/

namespace TableStore.Descriptor

/-- Bytes with their checksum behind them leave the residue. -/
theorem foldl_update_withChecksum (bytes : Bytes) :
    (withChecksum bytes).foldl Checksum.update 0xFFFFFFFF = Checksum.residue := by
  have hlength : (LittleEndian.encode checksumLength (Checksum.crc32 bytes).toNat).length = 4 :=
    LittleEndian.length_encode _ _
  apply (Checksum.foldl_update_append_eq_residue_iff bytes hlength).mpr
  rw [Checksum.word, LittleEndian.decode_encode (Checksum.crc32 bytes).toNat_lt,
    UInt32.ofNat_toNat]

theorem length_withChecksum_content (schema : Schema) :
    magic.length + 2 + checksumLength ≤ (withChecksum (content schema)).length := by
  simp only [withChecksum, content, List.length_append, LittleEndian.length_encode]
  omega

/-- Bytes that are long enough but do not leave the residue are refused for their checksum. -/
theorem read_of_foldl_update_ne {bytes : Bytes} (name : String)
    (hlong : magic.length + 2 + checksumLength ≤ bytes.length)
    (h : bytes.foldl Checksum.update 0xFFFFFFFF ≠ Checksum.residue) :
    ∃ stored computed, stored ≠ computed ∧
      read name bytes = .error (.checksum stored computed) := by
  let content := bytes.take (bytes.length - checksumLength)
  let stored := bytes.drop (bytes.length - checksumLength)
  have hstored : stored.length = 4 := by
    have hwidth : checksumLength = 4 := rfl
    rw [List.length_drop]
    omega
  have hne : Checksum.word stored ≠ Checksum.crc32 content := by
    rw [ne_eq, ← Checksum.foldl_update_append_eq_residue_iff content hstored,
      List.take_append_drop]
    exact h
  have hdecode : LittleEndian.decode stored ≠ (Checksum.crc32 content).toNat := by
    rw [← Checksum.toNat_word (Nat.le_of_eq hstored)]
    exact fun heq ↦ hne (UInt32.toNat_inj.mp heq)
  refine ⟨Checksum.word stored, Checksum.crc32 content, hne, ?_⟩
  rw [read, if_neg (Nat.not_lt.mpr hlong)]
  exact if_pos hdecode

/-- **A descriptor that is damaged within four bytes in a row is refused**, whatever the schema is,
wherever the damage is and whatever name the table is read under. -/
theorem refusesDamage_of_validate {schema : Schema} (hvalid : schema.validate = .ok ()) :
    ∃ written, encode schema = .ok written ∧
      ∀ name bytes, Bytes.DiffersWithin 4 written bytes →
        ∃ stored computed, stored ≠ computed ∧
          decode name bytes = .error (.corruptSchema (.checksum stored computed)) := by
  refine ⟨withChecksum (content schema), by rw [encode, hvalid], ?_⟩
  intro name bytes hdiffers
  have hlong := length_withChecksum_content schema
  rw [← hdiffers.length_eq] at hlong
  have hresidue := Checksum.foldl_update_ne hdiffers 0xFFFFFFFF
  rw [foldl_update_withChecksum] at hresidue
  obtain ⟨stored, computed, hne, hread⟩ := read_of_foldl_update_ne name hlong hresidue
  refine ⟨stored, computed, hne, ?_⟩
  rw [decode, hread]
  rfl

/-- The descriptor of a schema with the last byte of the key and the first two of the checksum
changed. -/
def damagedBooks : Bytes :=
  (((withChecksum (content booksSchema)).set 50 0).set 51 0).set 52 0

/-- The damage is found although it is on both sides of the border. -/
theorem refusesDamage_of_validate_books :
    booksSchema.validate = .ok () ∧
      Bytes.DiffersWithin 4 (withChecksum (content booksSchema)) damagedBooks ∧
      ∃ written stored computed, encode booksSchema = .ok written ∧ stored ≠ computed ∧
        decode "books" damagedBooks = .error (.corruptSchema (.checksum stored computed)) := by
  have hvalid : booksSchema.validate = .ok () := by rfl
  have hdiffers : Bytes.DiffersWithin 4 (withChecksum (content booksSchema)) damagedBooks := by
    refine ⟨by decide +kernel, by decide +kernel, 50, fun i hi ↦ ?_⟩
    rw [damagedBooks, List.getElem?_set_ne (by omega), List.getElem?_set_ne (by omega),
      List.getElem?_set_ne (by omega)]
  obtain ⟨written, hencode, hrefuses⟩ := refusesDamage_of_validate hvalid
  have hwritten : written = withChecksum (content booksSchema) := by
    rw [encode, hvalid] at hencode
    exact (Except.ok.inj hencode).symm
  obtain ⟨stored, computed, hne, hdecode⟩ := hrefuses "books" damagedBooks (hwritten ▸ hdiffers)
  exact ⟨hvalid, hdiffers, written, stored, computed, hencode, hne, hdecode⟩

end TableStore.Descriptor

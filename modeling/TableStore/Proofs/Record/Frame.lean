import TableStore.Record.Frame

/-!
# Splitting a byte string into frames

Frames need no separator: the bytes of a frame say where it ends, so that a complete frame is
found again whatever follows it, and no beginning of a frame is taken for a frame. It follows that
a byte string has exactly one longest beginning that is made of frames, and only one way to read
it as such. `frames` reads them off, and the counting of a recovery agrees with it.
-/

-- Powers are those of the core library, whatever is imported beside it.
attribute [local instance (1100)] instPowNat

namespace TableStore.Frame

/-- A byte string that is one complete frame. -/
def IsFrame (bytes : Bytes) : Prop :=
  ∃ body : Bytes, body.length ≤ bodyLimit ∧ bytes = ofBody body

/-! ## One frame -/

theorem length_lt_of_le_bodyLimit {length : Nat} (h : length ≤ bodyLimit) :
    length < 256 ^ width := by
  have hlimit : bodyLimit < 256 ^ width := by decide
  exact Nat.lt_of_le_of_lt h hlimit

/-- A frame is found again whatever follows it. -/
theorem split?_ofBody_append {body : Bytes} (h : body.length ≤ bodyLimit) (rest : Bytes) :
    split? (ofBody body ++ rest) = some (ofBody body, rest) := by
  have hlead : Bytes.split? width (ofBody body ++ rest) =
      some (LittleEndian.encode width body.length, body ++ rest) := by
    rw [Bytes.split?_eq_some_iff]
    exact ⟨by rw [ofBody, List.append_assoc], LittleEndian.length_encode _ _⟩
  have hbody : Bytes.split? body.length (body ++ rest) = some (body, rest) := by
    rw [Bytes.split?_eq_some_iff]
    exact ⟨rfl, rfl⟩
  have hlength : LittleEndian.decode (LittleEndian.encode width body.length) = body.length :=
    LittleEndian.decode_encode (length_lt_of_le_bodyLimit h)
  rw [split?, hlead]
  simp only [hlength, hbody]
  rw [← ofBody]

theorem split?_frame_append {frame : Bytes} (h : IsFrame frame) (rest : Bytes) :
    split? (frame ++ rest) = some (frame, rest) := by
  obtain ⟨body, hlimit, rfl⟩ := h
  exact split?_ofBody_append hlimit rest

/-- What is split off is a frame. -/
theorem isFrame_of_split? {bytes frame rest : Bytes}
    (h : split? bytes = some (frame, rest)) : IsFrame frame := by
  unfold split? at h
  split at h
  · cases h
  · next lead behind hlead =>
    have hwidth : lead.length = width := (Bytes.split?_eq_some_iff.mp hlead).2
    have hdecode : LittleEndian.decode lead < 256 ^ width := by
      rw [← hwidth]
      exact LittleEndian.decode_lt lead
    split at h
    · cases h
    · next body _ hbody =>
      cases h
      have hlength : body.length = LittleEndian.decode lead :=
        (Bytes.split?_eq_some_iff.mp hbody).2
      have hlimit : 256 ^ width = bodyLimit + 1 := by decide
      refine ⟨body, by omega, ?_⟩
      rw [ofBody, hlength, ← hwidth, LittleEndian.encode_decode]

/-- Exactly the complete frames at the front are split off. -/
theorem split?_eq_some_iff {bytes frame rest : Bytes} :
    split? bytes = some (frame, rest) ↔ IsFrame frame ∧ bytes = frame ++ rest := by
  constructor
  · intro h
    exact ⟨isFrame_of_split? h, eq_append_of_split? h⟩
  · rintro ⟨hframe, rfl⟩
    exact split?_frame_append hframe rest

theorem IsFrame.width_le_length {frame : Bytes} (h : IsFrame frame) : width ≤ frame.length :=
  width_le_length_of_split? (split?_frame_append h [])

theorem IsFrame.length_pos {frame : Bytes} (h : IsFrame frame) : 0 < frame.length :=
  Nat.lt_of_lt_of_le (by decide) h.width_le_length

@[simp]
theorem split?_nil : split? [] = none := by
  decide

/-- A frame within a longer byte string is cut off by a limit that it does not reach. -/
theorem split?_take (bytes : Bytes) (limit : Nat) :
    split? (bytes.take limit) =
      match split? bytes with
      | none => none
      | some (frame, rest) =>
        if limit < frame.length then none else some (frame, rest.take (limit - frame.length)) := by
  cases hshort : split? (bytes.take limit) with
  | some split =>
    obtain ⟨frame, rest⟩ := split
    obtain ⟨hframe, htake⟩ := split?_eq_some_iff.mp hshort
    have hbytes : bytes = frame ++ (rest ++ bytes.drop limit) := by
      rw [← List.append_assoc, ← htake, List.take_append_drop]
    have hfit : frame.length ≤ limit := by
      have hlength := congrArg List.length htake
      rw [List.length_take, List.length_append] at hlength
      omega
    have hrest : (rest ++ bytes.drop limit).take (limit - frame.length) = rest := by
      have hagain := htake
      rw [hbytes, List.take_append, List.take_of_length_le hfit] at hagain
      exact List.append_cancel_left hagain
    rw [hbytes, split?_frame_append hframe]
    simp only [Nat.not_lt.mpr hfit, if_false, hrest]
  | none =>
    cases hwhole : split? bytes with
    | none => rfl
    | some split =>
      obtain ⟨frame, rest⟩ := split
      obtain ⟨hframe, rfl⟩ := split?_eq_some_iff.mp hwhole
      by_cases hfit : limit < frame.length
      · simp only [hfit, if_true]
      · rw [List.take_append, List.take_of_length_le (Nat.not_lt.mp hfit),
          split?_frame_append hframe] at hshort
        cases hshort

/-- **No beginning of a frame is a frame.** Cut anywhere, it is not complete. -/
theorem split?_take_frame {frame : Bytes} (h : IsFrame frame) {limit : Nat}
    (hlimit : limit < frame.length) : split? (frame.take limit) = none := by
  have hwhole : split? frame = some (frame, []) := by
    simpa using split?_frame_append h []
  rw [split?_take, hwhole]
  simp only [hlimit, if_true]

/-! ## All frames -/

/-- The complete frames at the beginning of a byte string, one after the other. -/
def frames (bytes : Bytes) : List Bytes :=
  match _h : split? bytes with
  | none => []
  | some (frame, rest) => frame :: frames rest
  termination_by bytes.length
  decreasing_by exact length_rest_lt_of_split? _h

theorem frames_of_none {bytes : Bytes} (h : split? bytes = none) : frames bytes = [] := by
  rw [frames]
  split
  · rfl
  · next hsplit => rw [h] at hsplit; cases hsplit

theorem frames_of_some {bytes frame rest : Bytes} (h : split? bytes = some (frame, rest)) :
    frames bytes = frame :: frames rest := by
  rw [frames]
  split
  · next hsplit => rw [h] at hsplit; cases hsplit
  · next hsplit => rw [h] at hsplit; cases hsplit; rfl

@[simp]
theorem frames_nil : frames [] = [] :=
  frames_of_none split?_nil

/-- Frames that stand one after the other are read off, whatever follows them. -/
theorem frames_flatten_append {records : List Bytes} (h : ∀ record ∈ records, IsFrame record)
    (rest : Bytes) : frames (records.flatten ++ rest) = records ++ frames rest := by
  induction records with
  | nil => simp
  | cons record others ih =>
    have hrecord : IsFrame record := h record (by simp)
    have hothers : ∀ other ∈ others, IsFrame other := fun other hother ↦ h other (by simp [hother])
    rw [List.flatten_cons, List.append_assoc, frames_of_some (split?_frame_append hrecord _),
      ih hothers, List.cons_append]

theorem frames_flatten {records : List Bytes} (h : ∀ record ∈ records, IsFrame record) :
    frames records.flatten = records := by
  simpa using frames_flatten_append h []

/-- Frames that stand one after the other can be told apart in one way only. -/
theorem eq_of_flatten_eq {records others : List Bytes}
    (hrecords : ∀ record ∈ records, IsFrame record)
    (hothers : ∀ other ∈ others, IsFrame other) (h : records.flatten = others.flatten) :
    records = others :=
  calc
    records = frames records.flatten := (frames_flatten hrecords).symm
    _ = frames others.flatten := by rw [h]
    _ = others := frames_flatten hothers

/-- A byte string consists of its frames and a tail at whose front there is no complete frame. -/
theorem exists_tail (bytes : Bytes) :
    ∃ tail, bytes = (frames bytes).flatten ++ tail ∧ split? tail = none := by
  induction bytes using frames.induct with
  | case1 bytes hnone => exact ⟨bytes, by simp [frames_of_none hnone], hnone⟩
  | case2 bytes frame rest hsome ih =>
    obtain ⟨tail, hrest, htail⟩ := ih
    refine ⟨tail, ?_, htail⟩
    rw [frames_of_some hsome, List.flatten_cons, List.append_assoc, ← hrest]
    exact eq_append_of_split? hsome

theorem isFrame_of_mem_frames {bytes : Bytes} : ∀ record ∈ frames bytes, IsFrame record := by
  induction bytes using frames.induct with
  | case1 bytes hnone => simp [frames_of_none hnone]
  | case2 bytes frame rest hsome ih =>
    intro record hrecord
    rw [frames_of_some hsome, List.mem_cons] at hrecord
    rcases hrecord with rfl | hrecord
    · exact isFrame_of_split? hsome
    · exact ih record hrecord

theorem length_flatten_frames_le (bytes : Bytes) :
    (frames bytes).flatten.length ≤ bytes.length := by
  obtain ⟨tail, hbytes, _⟩ := exists_tail bytes
  have hlength := congrArg List.length hbytes
  rw [List.length_append] at hlength
  omega

/-- The frames are the beginning of the byte string as long as they are together. -/
theorem take_length_flatten_frames (bytes : Bytes) :
    bytes.take (frames bytes).flatten.length = (frames bytes).flatten := by
  obtain ⟨tail, hbytes, _⟩ := exists_tail bytes
  calc
    bytes.take (frames bytes).flatten.length =
        ((frames bytes).flatten ++ tail).take (frames bytes).flatten.length := by rw [← hbytes]
    _ = (frames bytes).flatten := List.take_left

/-- Whether byte strings are the frames of the longest beginning of a byte string that consists of
frames. -/
structure IsLongest (records : List Bytes) (bytes : Bytes) : Prop where
  isFrame : ∀ record ∈ records, IsFrame record
  isPrefix : records.flatten <+: bytes
  longest : ∀ others : List Bytes, (∀ other ∈ others, IsFrame other) → others.flatten <+: bytes →
    others.flatten.length ≤ records.flatten.length

/-- **The longest beginning that consists of frames is the one that is read off**, and there is only
one way to read it. -/
theorem isLongest_iff {records : List Bytes} {bytes : Bytes} :
    IsLongest records bytes ↔ records = frames bytes := by
  constructor
  · rintro ⟨hframes, ⟨rest, rfl⟩, hlongest⟩
    have hall : frames (records.flatten ++ rest) = records ++ frames rest :=
      frames_flatten_append hframes rest
    have hlength := hlongest _ isFrame_of_mem_frames
      (List.prefix_iff_eq_take.mpr (take_length_flatten_frames (records.flatten ++ rest)).symm)
    rw [hall, List.flatten_append, List.length_append] at hlength
    have hnone : frames rest = [] := by
      cases hrest : frames rest with
      | nil => rfl
      | cons record others =>
        have hpositive : 0 < record.length :=
          (isFrame_of_mem_frames record (by rw [hrest]; simp)).length_pos
        rw [hrest, List.flatten_cons, List.length_append] at hlength
        omega
    rw [hall, hnone, List.append_nil]
  · rintro rfl
    refine ⟨isFrame_of_mem_frames,
      List.prefix_iff_eq_take.mpr (take_length_flatten_frames bytes).symm, ?_⟩
    rintro others hothers ⟨rest, rfl⟩
    rw [frames_flatten_append hothers, List.flatten_append, List.length_append]
    exact Nat.le_add_right _ _

/-- Cutting frames at any length leaves those that end there or before: the first `count` of
them, if the next one does not fit. -/
theorem frames_take_flatten {records : List Bytes} (h : ∀ record ∈ records, IsFrame record)
    {count limit : Nat} (hfit : (records.take count).flatten.length ≤ limit)
    (hnext : ∀ _ : count < records.length, limit < (records.take (count + 1)).flatten.length) :
    frames (records.flatten.take limit) = records.take count := by
  have hkept : ∀ record ∈ records.take count, IsFrame record :=
    fun record hrecord ↦ h record (List.mem_of_mem_take hrecord)
  have hparts : records.flatten = (records.take count).flatten ++ (records.drop count).flatten := by
    rw [← List.flatten_append, List.take_append_drop]
  have htail : split? ((records.drop count).flatten.take
      (limit - (records.take count).flatten.length)) = none := by
    by_cases hcount : count < records.length
    · have hcut := hnext hcount
      rw [List.take_succ_eq_append_getElem hcount, List.flatten_append, List.length_append,
        List.flatten_singleton] at hcut
      have hrecord : IsFrame records[count] := h _ (List.getElem_mem hcount)
      rw [List.drop_eq_getElem_cons hcount, List.flatten_cons,
        List.take_append_of_le_length (by omega)]
      exact split?_take_frame hrecord (by omega)
    · rw [List.drop_eq_nil_of_le (Nat.not_lt.mp hcount), List.flatten_nil, List.take_nil]
      exact split?_nil
  rw [hparts, List.take_append, List.take_of_length_le hfit, frames_flatten_append hkept,
    frames_of_none htail, List.append_nil]

/-- Of byte strings one after the other there is a largest number that fits a limit. -/
theorem exists_count (records : List Bytes) (limit : Nat) :
    ∃ count ≤ records.length, ∀ more ≤ records.length,
      (records.take more).flatten.length ≤ limit ↔ more ≤ count := by
  induction records generalizing limit with
  | nil => exact ⟨0, Nat.le_refl 0, by simp⟩
  | cons record rest ih =>
    by_cases hfits : record.length ≤ limit
    · obtain ⟨count, hcount, hlargest⟩ := ih (limit - record.length)
      refine ⟨count + 1, Nat.succ_le_succ hcount, ?_⟩
      intro more hmore
      cases more with
      | zero => simp
      | succ more =>
        have hrest := hlargest more (Nat.le_of_succ_le_succ hmore)
        rw [List.take_succ_cons, List.flatten_cons, List.length_append]
        omega
    · refine ⟨0, Nat.zero_le _, ?_⟩
      intro more _
      cases more with
      | zero => simp
      | succ more =>
        rw [List.take_succ_cons, List.flatten_cons, List.length_append]
        omega

/-! ## Counting frames -/

theorem tallyFrom_eq (count length : Nat) (bytes : Bytes) :
    tallyFrom count length bytes =
      (count + (frames bytes).length, length + (frames bytes).flatten.length) := by
  induction count, length, bytes using tallyFrom.induct with
  | case1 count length bytes hnone =>
    rw [tallyFrom]
    split
    · simp [frames_of_none hnone]
    · next hsome => rw [hnone] at hsome; cases hsome
  | case2 count length bytes frame rest hsome ih =>
    rw [tallyFrom]
    split
    · next hnone => rw [hsome] at hnone; cases hnone
    · next hagain =>
      rw [hsome] at hagain
      cases hagain
      rw [ih, frames_of_some hsome, List.length_cons, List.flatten_cons, List.length_append]
      ext <;> simp only <;> omega

/-- The count and the length that a recovery finds are those of the frames. -/
theorem tally_eq (bytes : Bytes) :
    tally bytes = ((frames bytes).length, (frames bytes).flatten.length) := by
  rw [tally, tallyFrom_eq, Nat.zero_add, Nat.zero_add]

end TableStore.Frame

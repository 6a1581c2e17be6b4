import TableStore.Proofs.Log.Scan

/-!
# How a scanner goes through a file

A scanner is asked for one record after the other. As long as it goes on it has not passed its
limit, so that the bytes left up to there can be counted; each answer takes it to the end of the
record it has returned, and the answer after the last record ends the scan for good. Where it has
ended no further frame is complete before the limit. A scan can be taken up again wherever it has
been: the records up to there and the records from there on are those of the whole scan.
-/

-- Sums start at the zero of the core library, whatever is imported beside it.
attribute [local instance (1100)] Zero.ofOfNat0

namespace TableStore.Scanner

/-- Asks for the next record of a file. -/
def nextOf (content : Bytes) (scanner : Scanner) :
    Option (Except FileFault (Nat × Bytes)) × Scanner :=
  scanner.next (.ok (content.drop scanner.position))

/-- The scanner after it has been asked so many times. -/
def afterCalls (content : Bytes) (scanner : Scanner) : Nat → Scanner
  | 0 => scanner
  | count + 1 => ((scanner.afterCalls content count).nextOf content).2

/-- The records of a file between two offsets. -/
def recordsBetween (content : Bytes) (offset limit : Nat) : List Bytes :=
  Frame.frames ((content.drop offset).take (limit - offset))

/-- Where so many of the records between two offsets end. -/
def boundary (content : Bytes) (offset limit count : Nat) : Nat :=
  offset + ((recordsBetween content offset limit).take count).flatten.length

/-- A scan between two offsets that has yielded all these records. -/
def ended (offset limit : Nat) (records : List Bytes) : Scanner :=
  ⟨offset + records.flatten.length, limit,
    decide (offset + records.flatten.length < limit), true⟩

variable {content : Bytes} {offset limit count : Nat}

/-! ## The records between two offsets -/

theorem recordsBetween_of_le (h : limit ≤ offset) : recordsBetween content offset limit = [] := by
  rw [recordsBetween, Nat.sub_eq_zero_of_le h, List.take_zero, Frame.frames_nil]

theorem isFrame_of_mem_recordsBetween {record : Bytes}
    (h : record ∈ recordsBetween content offset limit) : Frame.IsFrame record :=
  Frame.isFrame_of_mem_frames record h

/-- Records one after the other are the first ones of them and then the others. -/
theorem flatten_take_append_drop (records : List Bytes) (count : Nat) :
    (records.take count).flatten ++ (records.drop count).flatten = records.flatten := by
  rw [← List.flatten_append, List.take_append_drop]

theorem length_flatten_take_le (records : List Bytes) (count : Nat) :
    (records.take count).flatten.length ≤ records.flatten.length := by
  rw [← flatten_take_append_drop records count, List.length_append]
  exact Nat.le_add_right _ _

theorem length_recordsBetween_le (content : Bytes) (offset limit : Nat) :
    (recordsBetween content offset limit).flatten.length ≤ limit - offset :=
  calc
    (recordsBetween content offset limit).flatten.length ≤
        ((content.drop offset).take (limit - offset)).length := Frame.length_flatten_frames_le _
    _ ≤ limit - offset := List.length_take_le _ _

theorem boundary_zero (content : Bytes) (offset limit : Nat) :
    boundary content offset limit 0 = offset := by
  rw [boundary, List.take_zero, List.flatten_nil, List.length_nil, Nat.add_zero]

theorem boundary_of_le (h : (recordsBetween content offset limit).length ≤ count) :
    boundary content offset limit count =
      offset + (recordsBetween content offset limit).flatten.length := by
  rw [boundary, List.take_of_length_le h]

theorem boundary_succ {record : Bytes}
    (h : (recordsBetween content offset limit)[count]? = some record) :
    boundary content offset limit (count + 1) =
      boundary content offset limit count + record.length := by
  rw [boundary, boundary, List.take_add_one, h, Option.toList_some, List.flatten_append,
    List.flatten_singleton, List.length_append, Nat.add_assoc]

/-- Between two offsets with any room no record ends behind the second one. -/
theorem boundary_le (h : offset ≤ limit) (content : Bytes) (count : Nat) :
    boundary content offset limit count ≤ limit := by
  have hall := length_recordsBetween_le content offset limit
  have htaken := length_flatten_take_le (recordsBetween content offset limit) count
  rw [boundary]
  omega

/-- The records between two offsets are the bytes with which the file goes on from the first. -/
theorem take_length_recordsBetween (content : Bytes) (offset limit : Nat) :
    (content.drop offset).take (recordsBetween content offset limit).flatten.length =
      (recordsBetween content offset limit).flatten := by
  have hframes := Frame.take_length_flatten_frames ((content.drop offset).take (limit - offset))
  rwa [← recordsBetween, List.take_take,
    Nat.min_eq_left (length_recordsBetween_le content offset limit)] at hframes

/-- Behind so many of the records stand the other ones and a tail without a complete one. -/
theorem exists_tail_behind (content : Bytes) (offset limit count : Nat) :
    ∃ tail, Frame.split? tail = none ∧
      (content.drop (boundary content offset limit count)).take
          (limit - boundary content offset limit count) =
        ((recordsBetween content offset limit).drop count).flatten ++ tail := by
  obtain ⟨tail, hvisible, htail⟩ := Frame.exists_tail ((content.drop offset).take (limit - offset))
  refine ⟨tail, htail, ?_⟩
  rw [boundary]
  rw [← recordsBetween] at hvisible
  generalize recordsBetween content offset limit = records at hvisible ⊢
  calc
    (content.drop (offset + (records.take count).flatten.length)).take
        (limit - (offset + (records.take count).flatten.length)) =
        ((content.drop offset).take (limit - offset)).drop
          (records.take count).flatten.length := by
      rw [List.drop_take, List.drop_drop, Nat.sub_sub]
    _ = ((records.take count).flatten ++ ((records.drop count).flatten ++ tail)).drop
          (records.take count).flatten.length := by
      rw [← List.append_assoc, flatten_take_append_drop, ← hvisible]
    _ = (records.drop count).flatten ++ tail := List.drop_left

/-- The records up to where so many of them end are these. -/
theorem recordsBetween_before (content : Bytes) (offset limit count : Nat) :
    recordsBetween content offset (boundary content offset limit count) =
      (recordsBetween content offset limit).take count := by
  have hbytes := take_length_recordsBetween content offset limit
  have hframes : ∀ record ∈ recordsBetween content offset limit, Frame.IsFrame record :=
    fun _ ↦ isFrame_of_mem_recordsBetween
  rw [recordsBetween, boundary, Nat.add_sub_cancel_left]
  generalize recordsBetween content offset limit = records at hbytes hframes ⊢
  have hle := length_flatten_take_le records count
  have hvisible : (content.drop offset).take (records.take count).flatten.length =
      (records.take count).flatten := by
    calc
      (content.drop offset).take (records.take count).flatten.length =
          ((content.drop offset).take records.flatten.length).take
            (records.take count).flatten.length := by
        rw [List.take_take, Nat.min_eq_left hle]
      _ = (records.take count).flatten := by
        rw [hbytes, ← flatten_take_append_drop records count, List.take_left]
  rw [hvisible, Frame.frames_flatten fun record hrecord ↦
    hframes record (List.mem_of_mem_take hrecord)]

/-- The records from where so many of them end are the other ones. -/
theorem recordsBetween_behind (content : Bytes) (offset limit count : Nat) :
    recordsBetween content (boundary content offset limit count) limit =
      (recordsBetween content offset limit).drop count := by
  obtain ⟨tail, htail, hvisible⟩ := exists_tail_behind content offset limit count
  have hothers : ∀ record ∈ (recordsBetween content offset limit).drop count,
      Frame.IsFrame record :=
    fun record hrecord ↦ isFrame_of_mem_recordsBetween (List.mem_of_mem_drop hrecord)
  rw [recordsBetween, hvisible, Frame.frames_flatten_append hothers, Frame.frames_of_none htail,
    List.append_nil]

/-- No frame begins where the last record ends and is complete before the second offset. -/
theorem not_isPrefix_of_fits {frame : Bytes} (hframe : Frame.IsFrame frame)
    (hfits : offset + (recordsBetween content offset limit).flatten.length + frame.length ≤ limit) :
    ¬ frame <+:
      content.drop (offset + (recordsBetween content offset limit).flatten.length) := by
  rintro ⟨rest, hrest⟩
  obtain ⟨tail, htail, hvisible⟩ := exists_tail_behind content offset limit
    (recordsBetween content offset limit).length
  rw [boundary_of_le (Nat.le_refl _), List.drop_length, List.flatten_nil, List.nil_append,
    ← hrest, List.take_append, List.take_of_length_le (by omega)] at hvisible
  rw [← hvisible, Frame.split?_frame_append hframe] at htail
  cases htail

/-! ## One call after the other -/

/-- Nothing comes from a scan that is over, and it stays as it is. -/
theorem next_of_done {scanner : Scanner} (h : scanner.done = true)
    (bytes : Except FileFault Bytes) : scanner.next bytes = (none, scanner) := by
  unfold next
  rw [if_pos h]

theorem afterCalls_of_done {scanner : Scanner} (h : scanner.done = true) (content : Bytes)
    (count : Nat) : scanner.afterCalls content count = scanner := by
  induction count with
  | zero => rfl
  | succ count ih => rw [afterCalls, ih, nextOf, next_of_done h]

/-- Without any room between the offsets a scan has ended before it starts. -/
theorem start_of_le (h : limit ≤ offset) (content : Bytes) :
    start offset limit = ended offset limit (recordsBetween content offset limit) := by
  rw [recordsBetween_of_le h, ended, start, List.flatten_nil, List.length_nil, Nat.add_zero,
    decide_eq_true h, decide_eq_false (Nat.not_lt.mpr h)]

/-- A scanner that stands behind so many records and goes on returns the next one, if there is one,
and ends otherwise. -/
theorem nextOf_boundary (content : Bytes) (offset limit count : Nat) :
    nextOf content ⟨boundary content offset limit count, limit, false, false⟩ =
      match (recordsBetween content offset limit)[count]? with
      | some record =>
        (some (.ok (boundary content offset limit count, record)),
          ⟨boundary content offset limit (count + 1), limit, false, false⟩)
      | none => (none, ended offset limit (recordsBetween content offset limit)) := by
  obtain ⟨tail, htail, hvisible⟩ := exists_tail_behind content offset limit count
  rw [nextOf, next_ok rfl]
  dsimp only [room]
  rw [hvisible]
  cases hrecord : (recordsBetween content offset limit)[count]? with
  | some record =>
    obtain ⟨hcount, rfl⟩ := List.getElem?_eq_some_iff.mp hrecord
    rw [List.drop_eq_getElem_cons hcount, List.flatten_cons, List.append_assoc,
      Frame.split?_frame_append (isFrame_of_mem_recordsBetween (List.getElem_mem hcount)),
      boundary_succ hrecord]
  | none =>
    have hall := List.getElem?_eq_none_iff.mp hrecord
    rw [List.drop_eq_nil_of_le hall, List.flatten_nil, List.nil_append, htail,
      boundary_of_le hall, ended, stop]
    dsimp only
    congr 3
    exact propext (by omega)

/-- Up to the last record the scanner stands behind as many records as it has been asked for. -/
theorem afterCalls_of_le (h : offset < limit)
    (hcount : count ≤ (recordsBetween content offset limit).length) :
    (start offset limit).afterCalls content count =
      ⟨boundary content offset limit count, limit, false, false⟩ := by
  induction count with
  | zero => rw [afterCalls, start, boundary_zero, decide_eq_false (Nat.not_le.mpr h)]
  | succ count ih =>
    rw [afterCalls, ih (Nat.le_of_succ_le hcount), nextOf_boundary,
      List.getElem?_eq_getElem hcount]

/-- After the last record the scan is over, however often the scanner is asked. -/
theorem afterCalls_of_lt (hcount : (recordsBetween content offset limit).length < count) :
    (start offset limit).afterCalls content count =
      ended offset limit (recordsBetween content offset limit) := by
  rcases Nat.lt_or_ge offset limit with hroom | hfull
  · induction hcount with
    | refl =>
      rw [afterCalls, afterCalls_of_le hroom (Nat.le_refl _), nextOf_boundary,
        List.getElem?_eq_none (Nat.le_refl _)]
    | step _ ih => rw [afterCalls, ih, nextOf, next_of_done rfl]
  · rw [start_of_le hfull content, afterCalls_of_done rfl]

/-- A scan goes on as long as there is room and there may be more records, and stands behind those
it has returned; otherwise it has ended. -/
theorem afterCalls_start (content : Bytes) (offset limit count : Nat) :
    (offset < limit ∧ (start offset limit).afterCalls content count =
        ⟨boundary content offset limit count, limit, false, false⟩) ∨
      ((recordsBetween content offset limit).length ≤ count ∧
        (start offset limit).afterCalls content count =
          ended offset limit (recordsBetween content offset limit)) := by
  rcases Nat.lt_or_ge (recordsBetween content offset limit).length count with hover | hcount
  · exact .inr ⟨Nat.le_of_lt hover, afterCalls_of_lt hover⟩
  · rcases Nat.lt_or_ge offset limit with hroom | hfull
    · exact .inl ⟨hroom, afterCalls_of_le hroom hcount⟩
    · right
      rw [start_of_le hfull content, afterCalls_of_done rfl, recordsBetween_of_le hfull]
      exact ⟨Nat.zero_le _, rfl⟩

/-- Wherever it is, a scanner stands behind the records that it has returned. -/
theorem position_afterCalls (content : Bytes) (offset limit count : Nat) :
    ((start offset limit).afterCalls content count).position =
      boundary content offset limit count := by
  rcases afterCalls_start content offset limit count with ⟨_, hgoes⟩ | ⟨hcount, hended⟩
  · rw [hgoes]
  · rw [hended, boundary_of_le hcount, ended]

/-- As long as a scan goes on it has not passed the limit. -/
theorem position_le_limit (h : ((start offset limit).afterCalls content count).done = false) :
    ((start offset limit).afterCalls content count).position ≤
      ((start offset limit).afterCalls content count).limit := by
  rcases afterCalls_start content offset limit count with ⟨hroom, hgoes⟩ | ⟨_, hended⟩
  · rw [hgoes]
    exact boundary_le (Nat.le_of_lt hroom) content count
  · rw [hended] at h
    cases h

/-- Each call returns one record, at the offset where the one before it has ended, until there are
no more. -/
theorem fst_nextOf_afterCalls (content : Bytes) (offset limit count : Nat) :
    (nextOf content ((start offset limit).afterCalls content count)).1 =
      (located List.length offset (recordsBetween content offset limit))[count]?.map .ok := by
  rw [getElem?_located, ← List.length_flatten, ← boundary]
  rcases afterCalls_start content offset limit count with ⟨_, hgoes⟩ | ⟨hcount, hended⟩
  · rw [hgoes, nextOf_boundary]
    cases (recordsBetween content offset limit)[count]? with
    | none => rfl
    | some record => rfl
  · rw [hended, nextOf, next_of_done rfl, List.getElem?_eq_none hcount]
    rfl

/-! ## A whole scan -/

theorem runOn_start (content : Bytes) (offset limit : Nat) :
    (start offset limit).runOn (.file content) =
      ((located List.length offset (recordsBetween content offset limit)).map .ok,
        ended offset limit (recordsBetween content offset limit)) :=
  run_start offset limit (content.drop offset)

/-- A scan up to where so many records end and one from there on yield the records of the whole
scan, and the second one ends as the whole scan does. -/
theorem runOn_append (content : Bytes) (offset limit count : Nat) :
    ((start offset (boundary content offset limit count)).runOn (.file content)).1 ++
        ((start (boundary content offset limit count) limit).runOn (.file content)).1 =
      ((start offset limit).runOn (.file content)).1 ∧
    ((start (boundary content offset limit count) limit).runOn (.file content)).2 =
      ended offset limit (recordsBetween content offset limit) := by
  rw [runOn_start, runOn_start, runOn_start, recordsBetween_before, recordsBetween_behind, boundary]
  generalize recordsBetween content offset limit = records
  dsimp only
  constructor
  · rw [← List.map_append, List.length_flatten, ← located_append, List.take_append_drop]
  · have hlength : (records.take count).flatten.length + (records.drop count).flatten.length =
        records.flatten.length := by
      rw [← List.length_append, flatten_take_append_drop]
    rw [ended, ended, Nat.add_assoc, hlength]

/-- How a scan of a file between two offsets goes that yields these records and ends like this. -/
structure Passes (content : Bytes) (offset limit : Nat) (records : List Bytes) (last : Scanner) :
    Prop where
  /-- The records are complete frames, -/
  isFrame : ∀ record ∈ records, Frame.IsFrame record
  /-- and together the bytes of the file from the start to where the scan ends. -/
  position : last.position = offset + records.flatten.length
  bytes : (content.drop offset).take (last.position - offset) = records.flatten
  /-- No further frame that starts there is complete before the limit. -/
  maximal : ∀ frame, Frame.IsFrame frame → last.position + frame.length ≤ limit →
    ¬ frame <+: content.drop last.position
  /-- The scan has met an incomplete record if it has started and not come to the limit. -/
  cutShort_iff : last.cutShort = true ↔ offset < limit ∧ last.position < limit
  /-- Each call returns one record, at the offset where the one before it has ended, until there are
  no more. -/
  answers : ∀ count, (nextOf content ((start offset limit).afterCalls content count)).1 =
    (located List.length offset records)[count]?.map .ok
  /-- As long as the scan goes on it has not passed the limit. -/
  room : ∀ count, ((start offset limit).afterCalls content count).done = false →
    ((start offset limit).afterCalls content count).position ≤
      ((start offset limit).afterCalls content count).limit
  /-- When there are no more records the scan is over, and nothing changes any more. -/
  ends : ∀ count, records.length < count → (start offset limit).afterCalls content count = last
  silent : ∀ bytes, last.next bytes = (none, last)
  /-- From wherever it has been, the scan can be taken up again. -/
  resumes : ∀ count boundary,
    ((start offset limit).afterCalls content count).position = boundary →
      ((start offset boundary).runOn (.file content)).1 ++
          ((start boundary limit).runOn (.file content)).1 =
        ((start offset limit).runOn (.file content)).1 ∧
      ((start boundary limit).runOn (.file content)).2 = last

/-- **Every scan of a file goes like this**, wherever it starts and whatever its limit is. -/
theorem exists_passes (content : Bytes) (offset limit : Nat) :
    ∃ records last, (start offset limit).runOn (.file content) =
        ((located List.length offset records).map .ok, last) ∧
      Passes content offset limit records last := by
  refine ⟨_, _, runOn_start content offset limit, ?_⟩
  constructor
  case isFrame => exact fun _ ↦ isFrame_of_mem_recordsBetween
  case position => rfl
  case bytes =>
    rw [ended, Nat.add_sub_cancel_left]
    exact take_length_recordsBetween content offset limit
  case maximal => exact fun _ hframe ↦ not_isPrefix_of_fits hframe
  case cutShort_iff =>
    rw [ended, decide_eq_true_eq]
    dsimp only
    omega
  case answers => exact fst_nextOf_afterCalls content offset limit
  case room => exact fun _ ↦ position_le_limit
  case ends => exact fun _ ↦ afterCalls_of_lt
  case silent => exact next_of_done rfl
  case resumes =>
    rintro count _ rfl
    rw [position_afterCalls]
    exact runOn_append content offset limit count

end TableStore.Scanner

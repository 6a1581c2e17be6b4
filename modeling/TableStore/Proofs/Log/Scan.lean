import TableStore.Log.AppendLog
import TableStore.Proofs.Record.Frame

/-!
# What a scan of a log yields

A scanner takes one record after the other off the bytes from its position on, and never looks at
more of them than its limit leaves room for. A whole scan therefore yields exactly the frames at
the beginning of the bytes between the two offsets, each with the offset at which it stands. A
single read at an offset finds the same record as a scan that starts there.
-/

-- Sums start at the zero of the core library, whatever is imported beside it.
attribute [local instance (1100)] Zero.ofOfNat0

namespace TableStore

/-- Things of given sizes that stand one after the other from an offset on, each with the offset
at which it stands. -/
def located {α : Type} (size : α → Nat) (offset : Nat) : List α → List (Nat × α)
  | [] => []
  | x :: rest => (offset, x) :: located size (offset + size x) rest

section Located

variable {α β : Type} {size : α → Nat}

@[simp]
theorem map_snd_located (offset : Nat) (xs : List α) :
    (located size offset xs).map (·.2) = xs := by
  induction xs generalizing offset with
  | nil => rfl
  | cons x rest ih => simp [located, ih]

@[simp]
theorem length_located (offset : Nat) (xs : List α) :
    (located size offset xs).length = xs.length := by
  rw [← List.length_map (·.2), map_snd_located]

theorem located_map (f : β → α) (offset : Nat) (xs : List β) :
    located size offset (xs.map f) =
      (located (size ∘ f) offset xs).map (fun entry ↦ (entry.1, f entry.2)) := by
  induction xs generalizing offset with
  | nil => rfl
  | cons x rest ih => simp [located, ih]

theorem located_append (offset : Nat) (xs ys : List α) :
    located size offset (xs ++ ys) =
      located size offset xs ++ located size (offset + (xs.map size).sum) ys := by
  induction xs generalizing offset with
  | nil => simp [located]
  | cons x rest ih => simp [located, ih, Nat.add_assoc]

/-- What stands at a position of a list is preceded by all that is in front of it. -/
theorem getElem?_located (offset : Nat) (xs : List α) (count : Nat) :
    (located size offset xs)[count]? =
      xs[count]?.map fun x ↦ (offset + ((xs.take count).map size).sum, x) := by
  induction xs generalizing offset count with
  | nil => simp [located]
  | cons x rest ih =>
    cases count with
    | zero => simp [located]
    | succ count =>
      rw [located, List.getElem?_cons_succ, ih, List.getElem?_cons_succ]
      simp only [List.take_succ_cons, List.map_cons, List.sum_cons, Nat.add_assoc]

/-- What stands at an offset is preceded by so many bytes. -/
theorem of_located_eq_append {offset : Nat} {xs : List α} {before after : List (Nat × α)}
    {entry : Nat × α} (h : located size offset xs = before ++ entry :: after) :
    xs = before.map (·.2) ++ entry.2 :: after.map (·.2) ∧
      entry.1 = offset + ((before.map (·.2)).map size).sum := by
  have hxs := congrArg (List.map (·.2)) h
  rw [map_snd_located, List.map_append, List.map_cons] at hxs
  refine ⟨hxs, ?_⟩
  rw [hxs, located_append] at h
  have hlength : (located size offset (before.map (·.2))).length = before.length := by
    rw [length_located, List.length_map]
  have hrest := (List.append_inj h hlength).2
  rw [located, List.cons.injEq] at hrest
  exact congrArg Prod.fst hrest.1.symm

theorem mem_located {offset position : Nat} {x : α} {xs : List α}
    (h : (position, x) ∈ located size offset xs) :
    ∃ before after, xs = before ++ x :: after ∧ position = offset + (before.map size).sum := by
  obtain ⟨before, after, hsplit⟩ := List.append_of_mem h
  obtain ⟨hxs, hposition⟩ := of_located_eq_append hsplit
  exact ⟨_, _, hxs, hposition⟩

theorem mem_of_mem_located {offset : Nat} {entry : Nat × α} {xs : List α}
    (h : entry ∈ located size offset xs) : entry.2 ∈ xs := by
  have hmem : entry.2 ∈ (located size offset xs).map (·.2) := List.mem_map_of_mem h
  rwa [map_snd_located] at hmem

theorem le_of_mem_located {offset position : Nat} {x : α} {xs : List α}
    (h : (position, x) ∈ located size offset xs) : offset ≤ position := by
  obtain ⟨before, _, _, hposition⟩ := mem_located h
  omega

/-- Offsets ascend if nothing is empty. -/
theorem pairwise_located {offset : Nat} {xs : List α} (h : ∀ x ∈ xs, 0 < size x) :
    (located size offset xs).Pairwise (·.1 < ·.1) := by
  induction xs generalizing offset with
  | nil => exact List.Pairwise.nil
  | cons head rest ih =>
    rw [located, List.pairwise_cons]
    refine ⟨?_, ih fun x hx ↦ h x (by simp [hx])⟩
    intro entry hentry
    have hhead : 0 < size head := h head (by simp)
    have hentry : offset + size head ≤ entry.1 := le_of_mem_located hentry
    dsimp only
    omega

end Located

namespace Scanner

/-! ## One step -/

/-- One step sees only the bytes up to the limit, and takes the frame at their front. -/
theorem next_ok {scanner : Scanner} (hdone : scanner.done = false) (bytes : Bytes) :
    scanner.next (.ok bytes) =
      match Frame.split? (bytes.take scanner.room) with
      | none => (none, scanner.stop (decide (0 < scanner.room)))
      | some (record, _) =>
        (some (.ok (scanner.position, record)),
          { scanner with position := scanner.position + record.length }) := by
  by_cases hroom : scanner.room < Frame.width
  · have hshort : Frame.split? (bytes.take scanner.room) = none := by
      cases hsplit : Frame.split? (bytes.take scanner.room) with
      | none => rfl
      | some split =>
        obtain ⟨hframe, htake⟩ := Frame.split?_eq_some_iff.mp hsplit
        have hwidth := hframe.width_le_length
        have hlength := congrArg List.length htake
        rw [List.length_take, List.length_append] at hlength
        omega
    rw [hshort]
    simp only [next, hdone, Bool.false_eq_true, if_false, hroom, if_true]
  · have hpositive : decide (0 < scanner.room) = true := by
      have hwidth : Frame.width = 4 := rfl
      exact decide_eq_true (by omega)
    simp only [next, hdone, Bool.false_eq_true, if_false, hroom, nextIn, Frame.split?_take,
      hpositive]
    cases Frame.split? bytes with
    | none => rfl
    | some split =>
      obtain ⟨record, rest⟩ := split
      by_cases hfit : scanner.room < record.length
      · simp only [hfit, if_true, Option.map_none]
      · simp only [hfit, if_false, Option.map_some]

theorem run_of_next_none {bytes : Except FileFault Bytes} {scanner last : Scanner}
    (h : scanner.next bytes = (none, last)) : scanner.run bytes = ([], last) := by
  rw [run]
  split
  · next hnext => rw [h] at hnext; cases hnext; rfl
  · next hnext => rw [h] at hnext; cases hnext

theorem run_of_next_some {bytes : Except FileFault Bytes} {scanner after : Scanner}
    {entry : Except FileFault (Nat × Bytes)} (h : scanner.next bytes = (some entry, after)) :
    scanner.run bytes =
      (entry :: (after.run (bytes.map (·.drop (after.position - scanner.position)))).1,
        (after.run (bytes.map (·.drop (after.position - scanner.position)))).2) := by
  rw [run]
  split
  · next hnext => rw [h] at hnext; cases hnext
  · next hnext => rw [h] at hnext; cases hnext; rfl

/-! ## A whole scan -/

/-- A scan takes off the frames that end before the limit, and has met an incomplete one if it
ends before the limit. -/
theorem run_ok {scanner : Scanner} (hdone : scanner.done = false) (bytes : Bytes) :
    scanner.run (.ok bytes) =
      ((located List.length scanner.position (Frame.frames (bytes.take scanner.room))).map .ok,
        { scanner with
          position := scanner.position + (Frame.frames (bytes.take scanner.room)).flatten.length
          cutShort := decide (scanner.position +
            (Frame.frames (bytes.take scanner.room)).flatten.length < scanner.limit)
          done := true }) := by
  induction hvisible : bytes.take scanner.room using Frame.frames.induct
    generalizing bytes scanner with
  | case1 visible hnone =>
    have hnext := next_ok hdone bytes
    rw [hvisible, hnone] at hnext
    rw [run_of_next_none hnext, Frame.frames_of_none hnone]
    simp only [located, List.map_nil, List.flatten_nil, List.length_nil, Nat.add_zero, stop, room]
    congr 3
    exact propext (by omega)
  | case2 visible record rest hsome ih =>
    have hnext := next_ok hdone bytes
    rw [hvisible, hsome] at hnext
    dsimp only at hnext
    have hfront : visible = record ++ rest := (Frame.split?_eq_some_iff.mp hsome).2
    have hrest : (bytes.drop record.length).take
        (scanner.limit - (scanner.position + record.length)) = rest := by
      have hroom : scanner.limit - (scanner.position + record.length) =
          scanner.room - record.length := by
        rw [room]
        omega
      rw [hroom, ← List.drop_take, hvisible, hfront, List.drop_left]
    have hadvance : scanner.position + record.length - scanner.position = record.length := by
      omega
    have hafter : ({ scanner with position := scanner.position + record.length } : Scanner).done =
        false := hdone
    rw [run_of_next_some hnext, Except.map, hadvance, ih hafter (bytes.drop record.length) hrest,
      Frame.frames_of_some hsome]
    simp only [located, List.map_cons, List.flatten_cons, List.length_append, Nat.add_assoc]

/-- A scan between two offsets yields the frames that stand there. -/
theorem run_start (offset limit : Nat) (bytes : Bytes) :
    (start offset limit).run (.ok bytes) =
      ((located List.length offset (Frame.frames (bytes.take (limit - offset)))).map .ok,
        ⟨offset + (Frame.frames (bytes.take (limit - offset))).flatten.length, limit,
          decide (offset + (Frame.frames (bytes.take (limit - offset))).flatten.length < limit),
          true⟩) := by
  by_cases hempty : limit ≤ offset
  · have hdone : (start offset limit).done = true := by simp [start, hempty]
    have hnext : (start offset limit).next (.ok bytes) = (none, start offset limit) := by
      rw [next, if_pos hdone]
    have hnothing : bytes.take (limit - offset) = [] := by
      rw [Nat.sub_eq_zero_of_le hempty, List.take_zero]
    rw [run_of_next_none hnext, hnothing]
    simp [located, start, hempty]
  · have hdone : (start offset limit).done = false := by simp [start, hempty]
    rw [run_ok hdone]
    rfl

end Scanner

namespace AppendLog

variable {log : AppendLog} {disk : Disk} {content : Bytes}

/-- A scan of a log whose file can be read is one of the bytes from its start on. -/
theorem scan_of_file (hfile : disk.get? log.place = some (.file content)) (offset limit : Nat) :
    log.scan disk offset limit =
      .ok ((Scanner.start offset (min limit log.committed)).run (.ok (content.drop offset))) := by
  have hfind : disk.find log.place = .ok (.file content) := by simp only [Disk.find, hfile]
  rw [scan, hfind]
  rfl

/-- A read finds the record that stands at an offset within the committed length. -/
theorem readIn_of_split? {offset : Nat} {record rest : Bytes}
    (hcommitted : log.committed ≤ content.length)
    (hsplit : Frame.split? ((content.take log.committed).drop offset) = some (record, rest)) :
    log.readIn (.ok (.file content)) offset = .ok record := by
  obtain ⟨⟨body, hlimit, rfl⟩, hvisible⟩ := Frame.split?_eq_some_iff.mp hsplit
  have hwidth : Frame.width = 4 := rfl
  have hroom : offset + (Frame.width + body.length) ≤ log.committed := by
    have hlength := congrArg List.length hvisible
    simp only [List.length_drop, List.length_take, List.length_append, Frame.ofBody,
      LittleEndian.length_encode] at hlength
    omega
  have hcontent : content.drop offset =
      LittleEndian.encode Frame.width body.length ++
        (body ++ (rest ++ content.drop log.committed)) := by
    calc
      content.drop offset =
          (content.take log.committed ++ content.drop log.committed).drop offset := by
        rw [List.take_append_drop]
      _ = (content.take log.committed).drop offset ++ content.drop log.committed := by
        rw [List.drop_append_of_le_length]
        rw [List.length_take]
        omega
      _ = LittleEndian.encode Frame.width body.length ++
            (body ++ (rest ++ content.drop log.committed)) := by
        rw [hvisible, Frame.ofBody, List.append_assoc, List.append_assoc]
  have hlead : (content.drop offset).take Frame.width =
      LittleEndian.encode Frame.width body.length := by
    rw [hcontent, List.take_left' (LittleEndian.length_encode _ _)]
  have hbody : (content.drop (offset + Frame.width)).take body.length = body := by
    rw [← List.drop_drop, hcontent, List.drop_left' (LittleEndian.length_encode _ _),
      List.take_left]
  have hdecode : LittleEndian.decode (LittleEndian.encode Frame.width body.length) = body.length :=
    LittleEndian.decode_encode (Frame.length_lt_of_le_bodyLimit hlimit)
  have hstart : ¬ log.committed < offset + Frame.width := by omega
  have hend : ¬ log.committed < offset + Frame.width + body.length := by omega
  simp only [readIn, hstart, if_false, Except.bind, Node.content?, hlead, hdecode, hend, hbody,
    LittleEndian.length_encode, Nat.lt_irrefl, Frame.ofBody]

/-- A read fails at an offset where no record stands within the committed length. -/
theorem readIn_of_split?_eq_none {offset : Nat} (hcommitted : log.committed ≤ content.length)
    (hnone : Frame.split? ((content.take log.committed).drop offset) = none) :
    ∃ fault, log.readIn (.ok (.file content)) offset = .error (.corruptRecord fault) := by
  have hwidth : Frame.width = 4 := rfl
  by_cases hstart : log.committed < offset + Frame.width
  · exact ⟨.pastEnd offset log.committed, by simp only [readIn, hstart, if_true]⟩
  have hvisible : ((content.take log.committed).drop offset).take Frame.width =
      (content.drop offset).take Frame.width := by
    rw [List.drop_take, List.take_take, Nat.min_eq_left (by omega)]
  have hlead : ((content.drop offset).take Frame.width).length = Frame.width := by
    rw [List.length_take, List.length_drop]
    omega
  have hbody : ((content.take log.committed).drop offset).drop Frame.width =
      (content.take log.committed).drop (offset + Frame.width) := List.drop_drop
  by_cases hend : log.committed < offset + Frame.width +
      LittleEndian.decode ((content.drop offset).take Frame.width)
  · refine ⟨.runsPastEnd offset (LittleEndian.decode ((content.drop offset).take Frame.width))
      log.committed, ?_⟩
    simp only [readIn, hstart, if_false, Except.bind, Node.content?, hlead, Nat.lt_irrefl, hend,
      if_true]
  · -- There is room for the body too, so that a frame could be split off.
    have hsplit : Bytes.split? Frame.width ((content.take log.committed).drop offset) =
        some ((content.drop offset).take Frame.width,
          (content.take log.committed).drop (offset + Frame.width)) := by
      rw [Bytes.split?_eq_some_iff]
      exact ⟨by rw [← hvisible, ← hbody, List.take_append_drop], hlead⟩
    rw [Frame.split?, hsplit] at hnone
    dsimp only at hnone
    split at hnone
    · next hshort =>
      rw [Bytes.split?_eq_none_iff, List.length_drop, List.length_take] at hshort
      omega
    · cases hnone

theorem read_of_split? {offset : Nat} {record rest : Bytes}
    (hfile : disk.get? log.place = some (.file content))
    (hcommitted : log.committed ≤ content.length)
    (hsplit : Frame.split? ((content.take log.committed).drop offset) = some (record, rest)) :
    log.read disk offset = .ok record := by
  have hfind : disk.find log.place = .ok (.file content) := by simp only [Disk.find, hfile]
  rw [read, hfind]
  exact readIn_of_split? hcommitted hsplit

theorem read_of_split?_eq_none {offset : Nat}
    (hfile : disk.get? log.place = some (.file content))
    (hcommitted : log.committed ≤ content.length)
    (hnone : Frame.split? ((content.take log.committed).drop offset) = none) :
    ∃ fault, log.read disk offset = .error (.corruptRecord fault) := by
  have hfind : disk.find log.place = .ok (.file content) := by simp only [Disk.find, hfile]
  rw [read, hfind]
  exact readIn_of_split?_eq_none hcommitted hnone

end AppendLog

end TableStore

import TableStore.Failure

/-!
# The first failure

Going through several things and stopping at the first that is refused fails with what that one is
refused for, and succeeds only if none is. Which one is the first can be said without going through
them: all in front of it are accepted.
-/

namespace TableStore

variable {α β γ : Type} {read : α → Except Failure β} {x : α} {xs : List α} {e : Failure}

/-- Whether a failure is that of the first of several things that a reader refuses. -/
def IsFirstFailure (read : α → Except Failure β) (xs : List α) (e : Failure) : Prop :=
  ∃ before x after, xs = before ++ x :: after ∧ (∀ y ∈ before, ∃ b, read y = .ok b) ∧
    read x = .error e

theorem not_isFirstFailure_nil : ¬ IsFirstFailure read [] e := by
  rintro ⟨before, x, after, hnil, _⟩
  exact List.append_ne_nil_of_right_ne_nil before (List.cons_ne_nil x after) hnil.symm

theorem isFirstFailure_cons_of_error {first : Failure} (hx : read x = .error first) :
    IsFirstFailure read (x :: xs) e ↔ first = e := by
  constructor
  · rintro ⟨before, y, after, hsplit, hbefore, hy⟩
    cases before with
    | nil =>
      cases hsplit
      rw [hx] at hy
      exact Except.error.inj hy
    | cons z rest =>
      cases hsplit
      obtain ⟨b, hb⟩ := hbefore x List.mem_cons_self
      rw [hx] at hb
      cases hb
  · rintro rfl
    exact ⟨[], x, xs, rfl, nofun, hx⟩

theorem isFirstFailure_cons_of_ok {b : β} (hx : read x = .ok b) :
    IsFirstFailure read (x :: xs) e ↔ IsFirstFailure read xs e := by
  constructor
  · rintro ⟨before, y, after, hsplit, hbefore, hy⟩
    cases before with
    | nil =>
      cases hsplit
      rw [hx] at hy
      cases hy
    | cons z rest =>
      cases hsplit
      exact ⟨rest, y, after, rfl, fun w hw ↦ hbefore w (List.mem_cons_of_mem _ hw), hy⟩
  · rintro ⟨before, y, after, rfl, hbefore, hy⟩
    refine ⟨x :: before, y, after, rfl, ?_, hy⟩
    intro z hz
    rcases List.mem_cons.mp hz with rfl | hz
    · exact ⟨b, hx⟩
    · exact hbefore z hz

theorem isFirstFailure_singleton : IsFirstFailure read [x] e ↔ read x = .error e := by
  cases hx : read x with
  | error first =>
    rw [isFirstFailure_cons_of_error hx]
    exact Except.error.injEq .. |>.to_iff.symm
  | ok b =>
    rw [isFirstFailure_cons_of_ok hx]
    exact iff_of_false not_isFirstFailure_nil nofun

/-- A first failure is in the front, or behind a front that can all be read. -/
theorem isFirstFailure_append {ys : List α} :
    IsFirstFailure read (xs ++ ys) e ↔
      IsFirstFailure read xs e ∨ (∀ x ∈ xs, ∃ b, read x = .ok b) ∧ IsFirstFailure read ys e := by
  induction xs with
  | nil => simp [not_isFirstFailure_nil]
  | cons x rest ih =>
    rw [List.cons_append]
    cases hx : read x with
    | error first =>
      rw [isFirstFailure_cons_of_error hx, isFirstFailure_cons_of_error hx]
      simp [hx]
    | ok b =>
      rw [isFirstFailure_cons_of_ok hx, isFirstFailure_cons_of_ok hx, ih]
      simp [hx]

theorem isFirstFailure_map {f : γ → α} {ys : List γ} :
    IsFirstFailure read (ys.map f) e ↔ IsFirstFailure (fun y ↦ read (f y)) ys e := by
  induction ys with
  | nil => exact iff_of_false not_isFirstFailure_nil not_isFirstFailure_nil
  | cons y rest ih =>
    rw [List.map_cons]
    cases hy : read (f y) with
    | error first =>
      rw [isFirstFailure_cons_of_error hy, Iff.comm]
      exact isFirstFailure_cons_of_error hy
    | ok b =>
      rw [isFirstFailure_cons_of_ok hy, ih, Iff.comm]
      exact isFirstFailure_cons_of_ok hy

/-- Unless all things can be read there is a first failure. -/
theorem forall_ok_or_exists_isFirstFailure (read : α → Except Failure β) (xs : List α) :
    (∀ x ∈ xs, ∃ b, read x = .ok b) ∨ ∃ e, IsFirstFailure read xs e := by
  induction xs with
  | nil => exact .inl nofun
  | cons x rest ih =>
    cases hx : read x with
    | error e => exact .inr ⟨e, (isFirstFailure_cons_of_error hx).mpr rfl⟩
    | ok b =>
      rcases ih with hrest | ⟨e, he⟩
      · left
        intro y hy
        rcases List.mem_cons.mp hy with rfl | hy
        · exact ⟨b, hx⟩
        · exact hrest y hy
      · exact .inr ⟨e, (isFirstFailure_cons_of_ok hx).mpr he⟩

theorem exists_map_eq_of_forall_ok (h : ∀ x ∈ xs, ∃ b, read x = .ok b) :
    ∃ bs : List β, xs.map read = bs.map .ok := by
  induction xs with
  | nil => exact ⟨[], rfl⟩
  | cons x rest ih =>
    obtain ⟨b, hb⟩ := h x List.mem_cons_self
    obtain ⟨bs, hbs⟩ := ih fun y hy ↦ h y (List.mem_cons_of_mem _ hy)
    exact ⟨b :: bs, by rw [List.map_cons, List.map_cons, hb, hbs]⟩

/-- What fails with the first failure succeeds if and only if everything can be read. -/
theorem exists_ok_iff_of_error_iff {outcome : Except Failure γ}
    (h : ∀ e, outcome = .error e ↔ IsFirstFailure read xs e) :
    (∃ c, outcome = .ok c) ↔ ∀ x ∈ xs, ∃ b, read x = .ok b := by
  constructor
  · rintro ⟨c, hc⟩
    rcases forall_ok_or_exists_isFirstFailure read xs with hall | ⟨e, he⟩
    · exact hall
    · rw [← h e, hc] at he
      cases he
  · intro hall
    cases houtcome : outcome with
    | ok c => exact ⟨c, rfl⟩
    | error e =>
      obtain ⟨before, x, after, rfl, _, hx⟩ := (h e).mp houtcome
      obtain ⟨b, hb⟩ := hall x (List.mem_append_right _ List.mem_cons_self)
      rw [hx] at hb
      cases hb

end TableStore

/-!
# Results up to the first failure

Whoever stops at the first failure among some results has seen `upToFailure` of them. More results
change nothing for it once there was a failure.
-/

namespace TrialBoard

section Results

variable {ε α β : Type}

theorem bind_ok (a : α) (f : α → Except ε β) : (Except.ok a >>= f) = f a := rfl

theorem exists_of_bind_eq_ok {x : Except ε α} {f : α → Except ε β} {b : β}
    (h : x >>= f = .ok b) : ∃ a, x = .ok a ∧ f a = .ok b := by
  cases x with
  | error e => cases h
  | ok a => exact ⟨a, rfl, h⟩

theorem exists_of_map_eq_ok {x : Except ε α} {f : α → β} {b : β} (h : x.map f = .ok b) :
    ∃ a, x = .ok a ∧ f a = b := by
  cases x with
  | error e => cases h
  | ok a => exact ⟨a, rfl, Except.ok.inj h⟩

/-- What holds of each result holds of all of them. -/
theorem forall_of_mapM_eq_ok {f : α → Except ε β} {p : β → Prop} {as : List α}
    (hf : ∀ a ∈ as, ∀ b, f a = .ok b → p b) {bs : List β} (h : as.mapM f = .ok bs) :
    ∀ b ∈ bs, p b := by
  induction as generalizing bs with
  | nil =>
    obtain rfl := Except.ok.inj h
    simp
  | cons a as ih =>
    obtain ⟨ha, has⟩ := List.forall_mem_cons.1 hf
    rw [List.mapM_cons] at h
    obtain ⟨b, hb, h⟩ := exists_of_bind_eq_ok h
    obtain ⟨bs', hbs, h⟩ := exists_of_bind_eq_ok h
    obtain rfl : b :: bs' = bs := Except.ok.inj h
    exact List.forall_mem_cons.2 ⟨ha b hb, ih has hbs⟩

end Results

/-- The results up to the first failure, and that failure. -/
def upToFailure {ε α : Type} : List (Except ε α) → List (Except ε α)
  | [] => []
  | .ok a :: results => .ok a :: upToFailure results
  | .error e :: _ => [.error e]

section upToFailure

variable {ε α : Type}

/-- Whether one of the results is a failure. -/
def HasFailure (results : List (Except ε α)) : Prop := ∃ e, .error e ∈ results

theorem hasFailure_append {xs ys : List (Except ε α)} :
    HasFailure (xs ++ ys) ↔ HasFailure xs ∨ HasFailure ys := by
  simp only [HasFailure, List.mem_append, exists_or]

theorem not_hasFailure_map_ok (as : List α) :
    ¬ HasFailure (as.map (.ok : α → Except ε α)) := by
  rintro ⟨e, he⟩
  obtain ⟨a, -, ha⟩ := List.mem_map.1 he
  cases ha

theorem upToFailure_append_left (xs ys : List (Except ε α)) :
    upToFailure (upToFailure xs ++ ys) = upToFailure (xs ++ ys) := by
  induction xs with
  | nil => rfl
  | cons x xs ih =>
    cases x with
    | ok a => simp [upToFailure, ih]
    | error e => rfl

theorem upToFailure_of_not_hasFailure {xs : List (Except ε α)} (h : ¬ HasFailure xs)
    (ys : List (Except ε α)) : upToFailure (xs ++ ys) = xs ++ upToFailure ys := by
  induction xs with
  | nil => rfl
  | cons x xs ih =>
    cases x with
    | ok a =>
      have hxs : ¬ HasFailure xs := fun ⟨e, he⟩ => h ⟨e, List.mem_cons_of_mem _ he⟩
      simp [upToFailure, ih hxs]
    | error e => exact absurd ⟨e, List.mem_cons_self⟩ h

theorem upToFailure_append_of_hasFailure {xs : List (Except ε α)} (h : HasFailure xs)
    (ys : List (Except ε α)) : upToFailure (xs ++ ys) = upToFailure xs := by
  induction xs with
  | nil => exact absurd h.choose_spec List.not_mem_nil
  | cons x xs ih =>
    cases x with
    | ok a =>
      obtain ⟨e, he⟩ := h
      have hxs : HasFailure xs := ⟨e, (List.mem_cons.1 he).resolve_left (by simp)⟩
      simp [upToFailure, ih hxs]
    | error e => rfl

theorem hasFailure_upToFailure {xs : List (Except ε α)} :
    HasFailure (upToFailure xs) ↔ HasFailure xs := by
  induction xs with
  | nil => rfl
  | cons x xs ih => cases x <;> simp_all [HasFailure, upToFailure]

theorem upToFailure_isPrefix_self (xs : List (Except ε α)) : upToFailure xs <+: xs := by
  induction xs with
  | nil => exact List.prefix_rfl
  | cons x xs ih =>
    cases x with
    | ok a => exact (List.prefix_cons_inj _).2 ih
    | error e => exact ⟨xs, rfl⟩

end upToFailure

end TrialBoard

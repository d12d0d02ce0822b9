/-!
# Computations that can fail

A computation in parts fails where the first of them fails, and a fold at the first element that its
step refuses.
-/

namespace GoldenHarness

variable {ε α β : Type}

/-- What a computation in two parts answers, if it does not fail. -/
theorem bind_eq_ok {x : Except ε α} {f : α → Except ε β} {b : β} :
    (x >>= f) = .ok b ↔ ∃ a, x = .ok a ∧ f a = .ok b := by
  cases x with
  | error e => exact ⟨nofun, fun ⟨a, ha, _⟩ => nomatch ha⟩
  | ok a =>
    constructor
    · intro h
      exact ⟨a, rfl, h⟩
    · rintro ⟨a', ha, h⟩
      cases ha
      exact h

theorem bind_ok (a : α) (f : α → Except ε β) : (Except.ok a >>= f) = f a := rfl

theorem bind_error (e : ε) (f : α → Except ε β) :
    ((.error e : Except ε α) >>= f) = .error e := rfl

theorem bind_eq_error {x : Except ε α} {f : α → Except ε β} {e : ε} :
    (x >>= f) = .error e ↔ x = .error e ∨ ∃ a, x = .ok a ∧ f a = .error e := by
  cases x with
  | error e' =>
    rw [bind_error]
    simp
  | ok a =>
    rw [bind_ok]
    simp

/-- A fold fails at the first element that its step refuses. -/
theorem foldlM_eq_error_iff {f : β → α → Except ε β} {xs : List α} {b : β} {e : ε} :
    xs.foldlM f b = .error e ↔
      ∃ before x after b', xs = before ++ x :: after ∧ before.foldlM f b = .ok b' ∧
        f b' x = .error e := by
  induction xs generalizing b with
  | nil => exact ⟨nofun, fun ⟨before, x, after, _, h, _⟩ => by simp at h⟩
  | cons x xs ih =>
    rw [List.foldlM_cons, bind_eq_error]
    constructor
    · rintro (h | ⟨b', hx, hxs⟩)
      · exact ⟨[], x, xs, b, rfl, rfl, h⟩
      · obtain ⟨before, y, after, b'', rfl, hbefore, hy⟩ := ih.mp hxs
        refine ⟨x :: before, y, after, b'', rfl, ?_, hy⟩
        rw [List.foldlM_cons, hx]
        exact hbefore
    · rintro ⟨before, y, after, b', hsplit, hbefore, hy⟩
      cases before with
      | nil =>
        obtain ⟨rfl, rfl⟩ := List.cons.inj hsplit
        cases hbefore
        exact Or.inl hy
      | cons x' before =>
        obtain ⟨rfl, rfl⟩ := List.cons.inj hsplit
        rw [List.foldlM_cons] at hbefore
        obtain ⟨b'', hx, hrest⟩ := bind_eq_ok.mp hbefore
        exact Or.inr ⟨b'', hx, ih.mpr ⟨before, y, after, b', rfl, hrest, hy⟩⟩

theorem foldlM_ne_error {f : β → α → Except ε β} {e : ε}
    (h : ∀ b x, f b x ≠ .error e) (xs : List α) (b : β) : xs.foldlM f b ≠ .error e := by
  rw [Ne, foldlM_eq_error_iff]
  rintro ⟨-, x, -, b', -, -, hx⟩
  exact h b' x hx

end GoldenHarness

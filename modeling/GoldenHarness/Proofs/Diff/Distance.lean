import Mathlib.Data.List.Basic

/-!
# How far apart two lists are

Two lists are within a distance `d` of one another if `d` deletions and insertions lead from the one to
the other. What is neither deleted nor inserted is common to both lists, so the distance is told by
how long a common sublist they have. Nothing is assumed of the way in which a script is found.
-/

namespace GoldenHarness.Diff

open List

variable {α : Type}

/-- At most `d` lines of two lists together are left over by some common sublist. -/
def Within (d : Nat) (old new : List α) : Prop :=
  ∃ common, common <+ old ∧ common <+ new ∧ old.length + new.length ≤ 2 * common.length + d

/-- A common sublist of two lists than which none is longer. -/
def IsLongestCommon (common old new : List α) : Prop :=
  common <+ old ∧ common <+ new ∧ ∀ other, other <+ old → other <+ new → other.length ≤ common.length

namespace Within

variable {d e : Nat} {a b : α} {as bs old new : List α}

theorem mono (h : Within d old new) (hle : d ≤ e) : Within e old new := by
  obtain ⟨common, hold, hnew, hlength⟩ := h
  exact ⟨common, hold, hnew, by omega⟩

theorem refl (as : List α) : Within 0 as as :=
  ⟨as, Sublist.refl as, Sublist.refl as, by omega⟩

/-- Deleting all of one list and inserting all of the other leads from the one to the other. -/
theorem all (old new : List α) : Within (old.length + new.length) old new :=
  ⟨[], nil_sublist old, nil_sublist new, by simp⟩

theorem symm (h : Within d old new) : Within d new old := by
  obtain ⟨common, hold, hnew, hlength⟩ := h
  exact ⟨common, hnew, hold, by omega⟩

theorem append (h : Within d old new) (h' : Within e as bs) :
    Within (d + e) (old ++ as) (new ++ bs) := by
  obtain ⟨common, hold, hnew, hlength⟩ := h
  obtain ⟨more, has, hbs, hmore⟩ := h'
  refine ⟨common ++ more, hold.append has, hnew.append hbs, ?_⟩
  simp only [length_append]
  omega

theorem reverse (h : Within d old new) : Within d old.reverse new.reverse := by
  obtain ⟨common, hold, hnew, hlength⟩ := h
  refine ⟨common.reverse, hold.reverse, hnew.reverse, ?_⟩
  simp only [length_reverse]
  exact hlength

theorem reverse_iff : Within d old.reverse new.reverse ↔ Within d old new := by
  constructor
  · intro h
    have h' := h.reverse
    rwa [reverse_reverse, reverse_reverse] at h'
  · exact reverse

/-- The lengths of two lists differ by no more than their distance. -/
theorem length_le (h : Within d old new) :
    old.length ≤ new.length + d ∧ new.length ≤ old.length + d := by
  obtain ⟨common, hold, hnew, hlength⟩ := h
  have hleft := hold.length_le
  have hright := hnew.length_le
  omega

theorem of_nil (h : Within d old []) : old.length ≤ d := by
  have hle := h.length_le.1
  simpa using hle

theorem eq_of_zero (h : Within 0 old new) : old = new := by
  obtain ⟨common, hold, hnew, hlength⟩ := h
  have hleft := hold.length_le
  have hright := hnew.length_le
  have heq : common = old := hold.eq_of_length (by omega)
  have heq' : common = new := hnew.eq_of_length (by omega)
  rw [← heq, heq']

/-- The distance is odd or even as the number of lines is, so one that is not is not the least. -/
theorem pred_of_odd (h : Within d old new) (hodd : (d + old.length + new.length) % 2 = 1) :
    0 < d ∧ Within (d - 1) old new := by
  obtain ⟨common, hold, hnew, hlength⟩ := h
  have hleft := hold.length_le
  have hright := hnew.length_le
  have hpos : 0 < d := by omega
  exact ⟨hpos, common, hold, hnew, by omega⟩

/-! ## First and last steps -/

/-- Two lists are no further apart without their first lines: only one of these can be common to both
lists and not be the other's partner. -/
theorem of_cons (h : Within d (a :: as) (b :: bs)) : Within d as bs := by
  obtain ⟨common, hold, hnew, hlength⟩ := h
  refine ⟨common.tail, hold.tail, hnew.tail, ?_⟩
  simp only [length_cons, length_tail] at hlength ⊢
  omega

theorem cons_iff : Within d (a :: as) (a :: bs) ↔ Within d as bs := by
  constructor
  · exact of_cons
  · intro h
    have h' := (refl [a]).append h
    rwa [Nat.zero_add] at h'

/-- How a shortest way begins: both first lines are kept, or one of them is deleted or inserted. -/
theorem cons_cases (h : Within d (a :: as) (b :: bs)) :
    (a = b ∧ Within d as bs) ∨ (0 < d ∧ Within (d - 1) as (b :: bs)) ∨
      (0 < d ∧ Within (d - 1) (a :: as) bs) := by
  obtain ⟨common, hold, hnew, hlength⟩ := h
  simp only [length_cons] at hlength
  cases hold with
  | cons _ hold =>
    have hleft := hold.length_le
    have hright := hnew.length_le
    simp only [length_cons] at hright
    refine Or.inr (Or.inl ⟨by omega, common, hold, hnew, ?_⟩)
    simp only [length_cons]
    omega
  | @cons_cons rest _ _ hold =>
    have hleft := hold.length_le
    cases hnew with
    | cons _ hnew =>
      have hright := hnew.length_le
      simp only [length_cons] at hright hlength
      refine Or.inr (Or.inr ⟨by omega, a :: rest, hold.cons_cons a, hnew, ?_⟩)
      simp only [length_cons]
      omega
    | cons_cons _ hnew =>
      simp only [length_cons] at hlength
      exact Or.inl ⟨rfl, rest, hold, hnew, by omega⟩

/-- How a shortest way ends. -/
theorem concat_cases (h : Within d (as ++ [a]) (bs ++ [b])) :
    (a = b ∧ Within d as bs) ∨ (0 < d ∧ Within (d - 1) as (bs ++ [b])) ∨
      (0 < d ∧ Within (d - 1) (as ++ [a]) bs) := by
  have hreverse := h.reverse
  rw [reverse_concat, reverse_concat] at hreverse
  rcases hreverse.cons_cases with ⟨hab, hkept⟩ | ⟨hpos, hdeleted⟩ | ⟨hpos, hinserted⟩
  · exact Or.inl ⟨hab, reverse_iff.mp hkept⟩
  · rw [← reverse_concat, reverse_iff] at hdeleted
    exact Or.inr (Or.inl ⟨hpos, hdeleted⟩)
  · rw [← reverse_concat, reverse_iff] at hinserted
    exact Or.inr (Or.inr ⟨hpos, hinserted⟩)

/-! ## Shared beginnings and endings -/

theorem append_left_iff (shared : List α) :
    Within d (shared ++ old) (shared ++ new) ↔ Within d old new := by
  induction shared with
  | nil => rfl
  | cons a shared ih => rw [cons_append, cons_append, cons_iff, ih]

theorem append_right_iff (shared : List α) :
    Within d (old ++ shared) (new ++ shared) ↔ Within d old new := by
  rw [← reverse_iff, reverse_append, reverse_append, append_left_iff, reverse_iff]

/-- Two lists are no further apart without as many lines at the beginning of either. -/
theorem drop_drop (h : Within d old new) {k : Nat} (hold : k ≤ old.length) (hnew : k ≤ new.length) :
    Within d (old.drop k) (new.drop k) := by
  induction k generalizing old new with
  | zero => exact h
  | succ k ih =>
    cases old with
    | nil => cases hold
    | cons a old =>
      cases new with
      | nil => cases hnew
      | cons b new => exact ih h.of_cons (Nat.le_of_succ_le_succ hold) (Nat.le_of_succ_le_succ hnew)

/-! ## Points on the way -/

/-- A way of `d + e` steps passes a point that is `d` steps from the one end and `e` from the other. -/
theorem exists_between (h : Within (d + e) old new) :
    ∃ x y, x ≤ old.length ∧ y ≤ new.length ∧ Within d (old.take x) (new.take y) ∧
      Within e (old.drop x) (new.drop y) := by
  obtain ⟨common, hold, hnew, hlength⟩ := h
  -- on both sublists; a line that is left over is a step, of which the first `d` come before the point
  induction hold generalizing d new with
  | slnil =>
    refine ⟨0, min d new.length, Nat.le_refl 0, Nat.min_le_right _ _, ?_, ?_⟩
    · refine (all [] (new.take (min d new.length))).mono ?_
      simp only [length_nil, length_take]
      omega
    · refine (all [] (new.drop (min d new.length))).mono ?_
      simp only [length_nil, length_drop] at hlength ⊢
      omega
  | @cons common old a hold ih =>
    cases d with
    | zero =>
      refine ⟨0, 0, Nat.zero_le _, Nat.zero_le _, refl [], ?_⟩
      exact ⟨common, hold.cons a, hnew, by simpa using hlength⟩
    | succ d =>
      simp only [length_cons] at hlength
      obtain ⟨x, y, hx, hy, hbefore, hafter⟩ := ih hnew (d := d) (by omega)
      refine ⟨x + 1, y, Nat.succ_le_succ hx, hy, ?_, hafter⟩
      have hstep : Within 1 [a] ([] : List α) := all [a] []
      have hmore := hstep.append hbefore
      rwa [Nat.add_comm] at hmore
  | @cons_cons common old a hold ih =>
    -- the partner of the common line in the new list, and what is left over before it
    induction new generalizing d with
    | nil => cases hnew
    | cons b new ihnew =>
      cases hnew with
      | cons _ hnew =>
        cases d with
        | zero =>
          refine ⟨0, 0, Nat.zero_le _, Nat.zero_le _, refl [], ?_⟩
          exact ⟨a :: common, hold.cons_cons a, hnew.cons b, by simpa using hlength⟩
        | succ d =>
          simp only [length_cons] at hlength
          obtain ⟨x, y, hx, hy, hbefore, hafter⟩ :=
            ihnew (d := d) hnew (by simp only [length_cons]; omega)
          refine ⟨x, y + 1, hx, Nat.succ_le_succ hy, ?_, hafter⟩
          have hstep : Within 1 ([] : List α) [b] := all [] [b]
          have hmore := hstep.append hbefore
          rwa [Nat.add_comm] at hmore
      | cons_cons _ hnew =>
        simp only [length_cons] at hlength
        obtain ⟨x, y, hx, hy, hbefore, hafter⟩ := ih hnew (d := d) (by omega)
        refine ⟨x + 1, y + 1, Nat.succ_le_succ hx, Nat.succ_le_succ hy, ?_, hafter⟩
        exact cons_iff.mpr hbefore

end Within

/-- What the nearest way leaves over tells how long the longest common sublists are. -/
theorem exists_isLongestCommon {c : Nat} {old new : List α} (h : Within c old new)
    (hleast : ∀ d, Within d old new → c ≤ d) :
    ∃ common, IsLongestCommon common old new ∧ c + 2 * common.length = old.length + new.length := by
  obtain ⟨common, hold, hnew, hlength⟩ := h
  have hothers (other : List α) (hother : other <+ old) (hother' : other <+ new) :
      c + 2 * other.length ≤ old.length + new.length := by
    have hleft := hother.length_le
    have hright := hother'.length_le
    have hle := hleast (old.length + new.length - 2 * other.length)
      ⟨other, hother, hother', by omega⟩
    omega
  have hexact := hothers common hold hnew
  refine ⟨common, ⟨hold, hnew, ?_⟩, by omega⟩
  intro other hother hother'
  have hle := hothers other hother hother'
  omega

end GoldenHarness.Diff

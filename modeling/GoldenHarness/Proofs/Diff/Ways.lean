import GoldenHarness.Diff.Search
import GoldenHarness.Proofs.Diff.Distance

/-!
# Ways through the grid

How many steps lead from one corner of the grid to a point, and from the point to the other corner: a
step right deletes a line, a step down inserts one, and diagonals cost nothing. A search may run over
the edges of the grid, where it goes on with a step for each line that is not there.
-/

namespace GoldenHarness.Diff.Grid

variable {α : Type} {g : Grid α} {c d e i j : Nat}

/-! ## Points of the grid -/

/-- At most `d` steps lead from the near corner to a point. -/
def FromStart (g : Grid α) (d i j : Nat) : Prop :=
  Within d (g.old.toList.take i) (g.new.toList.take j)

/-- At most `d` steps lead from a point to the far corner. -/
def ToEnd (g : Grid α) (d i j : Nat) : Prop :=
  Within d (g.old.toList.drop i) (g.new.toList.drop j)

/-- At most `d` steps lead through the grid. -/
def Across (g : Grid α) (d : Nat) : Prop := Within d g.old.toList g.new.toList

/-- At most `d` steps lead from the near corner to a point, which may lie beyond the edges. -/
def Reaches (g : Grid α) (d i j : Nat) : Prop :=
  ∃ e, g.FromStart e i j ∧ e + (i - g.old.size) + (j - g.new.size) ≤ d

theorem FromStart.mono (h : g.FromStart d i j) (hle : d ≤ e) : g.FromStart e i j :=
  Within.mono h hle

theorem ToEnd.mono (h : g.ToEnd d i j) (hle : d ≤ e) : g.ToEnd e i j :=
  Within.mono h hle

theorem FromStart.across (h : g.FromStart d i j) (h' : g.ToEnd e i j) : g.Across (d + e) := by
  have happend := Within.append h h'
  rwa [List.take_append_drop, List.take_append_drop] at happend

theorem fromStart_all (hi : i ≤ g.old.size) (hj : j ≤ g.new.size) : g.FromStart (i + j) i j := by
  have hall := Within.all (g.old.toList.take i) (g.new.toList.take j)
  refine hall.mono ?_
  simp only [List.length_take, Array.length_toList]
  omega

theorem toEnd_all (g : Grid α) (i j : Nat) :
    g.ToEnd (g.old.size - i + (g.new.size - j)) i j := by
  have hall := Within.all (g.old.toList.drop i) (g.new.toList.drop j)
  rwa [List.length_drop, List.length_drop, Array.length_toList, Array.length_toList] at hall

theorem across_all (g : Grid α) : g.Across (g.old.size + g.new.size) := by
  have hall := Within.all g.old.toList g.new.toList
  rwa [Array.length_toList, Array.length_toList] at hall

/-- No more than `d` diagonals are crossed in `d` steps. -/
theorem FromStart.bounds (h : g.FromStart d i j) (hi : i ≤ g.old.size) (hj : j ≤ g.new.size) :
    i ≤ j + d ∧ j ≤ i + d := by
  have hlength := h.length_le
  simp only [List.length_take, Array.length_toList] at hlength
  omega

theorem ToEnd.bounds (h : g.ToEnd d i j) (hi : i ≤ g.old.size) (hj : j ≤ g.new.size) :
    g.old.size + j ≤ g.new.size + i + d ∧ g.new.size + i ≤ g.old.size + j + d := by
  have hlength := h.length_le
  simp only [List.length_drop, Array.length_toList] at hlength
  omega

theorem FromStart.pred (h : g.FromStart d i j) (hi : i ≤ g.old.size) (hj : j ≤ g.new.size)
    (hodd : (d + i + j) % 2 = 1) : 0 < d ∧ g.FromStart (d - 1) i j := by
  refine h.pred_of_odd ?_
  simp only [List.length_take, Array.length_toList]
  rwa [Nat.min_eq_left hi, Nat.min_eq_left hj]

theorem Across.pred (h : g.Across d) (hodd : (d + g.old.size + g.new.size) % 2 = 1) :
    0 < d ∧ g.Across (d - 1) :=
  Within.pred_of_odd h hodd

/-! ## Steps -/

theorem Reaches.start (g : Grid α) : g.Reaches 0 0 0 := ⟨0, Within.refl [], by simp⟩

theorem Reaches.right (h : g.Reaches d i j) : g.Reaches (d + 1) (i + 1) j := by
  obtain ⟨e, hwithin, hle⟩ := h
  by_cases hi : i < g.old.size
  · refine ⟨e + 1, ?_, by omega⟩
    have hstep : Within 1 [g.old.toList[i]] ([] : List α) := Within.all _ _
    have happend := Within.append hwithin hstep
    rwa [List.append_nil, List.take_append_getElem] at happend
  · refine ⟨e, ?_, by omega⟩
    unfold FromStart at hwithin ⊢
    rw [List.take_of_length_le (Nat.le_succ_of_le (Nat.le_of_not_lt hi))]
    rwa [List.take_of_length_le (Nat.le_of_not_lt hi)] at hwithin

theorem Reaches.fromStart (h : g.Reaches d i j) : g.FromStart d i j := by
  obtain ⟨e, hstart, hle⟩ := h
  exact hstart.mono (by omega)

/-- The grid with its two lists in each other's place. -/
def swap (g : Grid α) : Grid α := ⟨g.new, g.old⟩

theorem Reaches.swap (h : g.Reaches d i j) : g.swap.Reaches d j i := by
  obtain ⟨e, hwithin, hle⟩ := h
  exact ⟨e, hwithin.symm, by rw [Grid.swap]; dsimp only; omega⟩

theorem Reaches.down (h : g.Reaches d i j) : g.Reaches (d + 1) i (j + 1) :=
  h.swap.right.swap

/-- The lines on `length` steps down a diagonal are the same on both sides. -/
def Agree (g : Grid α) (i j length : Nat) : Prop :=
  ∀ k, k < length → ∃ (hi : i + k < g.old.size) (hj : j + k < g.new.size),
    g.old[i + k] = g.new[j + k]

theorem Agree.bounds {length : Nat} (h : g.Agree i j length) (hi : i ≤ g.old.size)
    (hj : j ≤ g.new.size) : i + length ≤ g.old.size ∧ j + length ≤ g.new.size := by
  cases length with
  | zero => exact ⟨hi, hj⟩
  | succ k =>
    obtain ⟨hk, hk', -⟩ := h k (Nat.lt_succ_self k)
    omega

theorem Agree.tail {length : Nat} (h : g.Agree i j (length + 1)) : g.Agree (i + 1) (j + 1) length := by
  intro k hk
  obtain ⟨hi, hj, heq⟩ := h (k + 1) (Nat.succ_lt_succ hk)
  refine ⟨by omega, by omega, ?_⟩
  simp only [Nat.add_assoc, Nat.add_comm 1 k]
  exact heq

theorem Agree.reaches {length : Nat} (h : g.Agree i j length) (hreach : g.Reaches d i j) :
    g.Reaches d (i + length) (j + length) := by
  induction length generalizing i j with
  | zero => exact hreach
  | succ length ih =>
    have hnext : g.Reaches d (i + 1) (j + 1) := by
      obtain ⟨hi, hj, heq⟩ := h 0 (Nat.zero_lt_succ length)
      obtain ⟨e, hwithin, hle⟩ := hreach
      refine ⟨e, ?_, by omega⟩
      simp only [Nat.add_zero] at hi hj heq
      have hsame : g.old.toList[i] = g.new.toList[j] := heq
      have hkept := Within.append hwithin (Within.refl [g.old.toList[i]])
      rw [List.take_append_getElem, hsame, List.take_append_getElem] at hkept
      exact hkept
    have hrest := ih h.tail hnext
    rwa [Nat.add_assoc, Nat.add_assoc, Nat.add_comm 1 length] at hrest

/-- From the beginning of a diagonal it is no further to the far corner than from its end. -/
theorem Agree.toEnd {length : Nat} (h : g.Agree i j length)
    (hend : g.ToEnd d (i + length) (j + length)) : g.ToEnd d i j := by
  induction length generalizing i j with
  | zero => exact hend
  | succ length ih =>
    obtain ⟨hi, hj, heq⟩ := h 0 (Nat.zero_lt_succ length)
    simp only [Nat.add_zero] at hi hj heq
    have hnext : g.ToEnd d (i + 1) (j + 1) := by
      refine ih h.tail ?_
      rwa [Nat.add_assoc, Nat.add_assoc, Nat.add_comm 1 length]
    have hsame : g.old.toList[i] = g.new.toList[j] := heq
    unfold ToEnd
    rw [List.drop_eq_getElem_cons hi, List.drop_eq_getElem_cons hj, hsame]
    exact Within.cons_iff.mpr hnext

/-- Further down a diagonal it is no further to the far corner. -/
theorem ToEnd.further {k : Nat} (h : g.ToEnd d i j) (hi : i + k ≤ g.old.size)
    (hj : j + k ≤ g.new.size) : g.ToEnd d (i + k) (j + k) := by
  have hdrop := Within.drop_drop h (k := k)
    (by rw [List.length_drop, Array.length_toList]; omega)
    (by rw [List.length_drop, Array.length_toList]; omega)
  rwa [List.drop_drop, List.drop_drop] at hdrop

/-- How a shortest way to a point ends: with lines that agree, or with a step from the left or from
above. -/
theorem FromStart.last_cases (h : g.FromStart d i j) (hi : i ≤ g.old.size) (hj : j ≤ g.new.size) :
    i = 0 ∨
    (∃ i' j', i = i' + 1 ∧ j = j' + 1 ∧ g.Agree i' j' 1 ∧ g.FromStart d i' j') ∨
    (∃ i' e, i = i' + 1 ∧ d = e + 1 ∧ g.FromStart e i' j) ∨
    (∃ j' e, j = j' + 1 ∧ d = e + 1 ∧ g.FromStart e i j') := by
  cases i with
  | zero => exact Or.inl rfl
  | succ i =>
    have hi' : i < g.old.toList.length := hi
    unfold FromStart at h
    rw [← List.take_append_getElem hi'] at h
    cases j with
    | zero =>
      have hlength := h.of_nil
      simp only [List.length_append, List.length_take, List.length_singleton] at hlength
      refine Or.inr (Or.inr (Or.inl ⟨i, d - 1, rfl, by omega, ?_⟩))
      exact (fromStart_all (Nat.le_of_lt hi') hj).mono (by omega)
    | succ j =>
      have hj' : j < g.new.toList.length := hj
      rw [← List.take_append_getElem hj'] at h
      rcases h.concat_cases with ⟨heq, hkept⟩ | ⟨hpos, hdeleted⟩ | ⟨hpos, hinserted⟩
      · refine Or.inr (Or.inl ⟨i, j, rfl, rfl, ?_, hkept⟩)
        intro k hk
        obtain rfl : k = 0 := by omega
        exact ⟨hi, hj, heq⟩
      · rw [List.take_append_getElem] at hdeleted
        exact Or.inr (Or.inr (Or.inl ⟨i, d - 1, rfl, by omega, hdeleted⟩))
      · rw [List.take_append_getElem] at hinserted
        exact Or.inr (Or.inr (Or.inr ⟨j, d - 1, rfl, by omega, hinserted⟩))

/-! ## The far corner -/

theorem toList_old_flip (g : Grid α) : g.flip.old.toList = g.old.toList.reverse :=
  Array.toList_reverse

theorem toList_new_flip (g : Grid α) : g.flip.new.toList = g.new.toList.reverse :=
  Array.toList_reverse

@[simp] theorem size_old_flip (g : Grid α) : g.flip.old.size = g.old.size := Array.size_reverse

@[simp] theorem size_new_flip (g : Grid α) : g.flip.new.size = g.new.size := Array.size_reverse

@[simp] theorem flip_flip (g : Grid α) : g.flip.flip = g := by
  unfold flip
  rw [Array.reverse_reverse, Array.reverse_reverse]

theorem across_flip : g.flip.Across d ↔ g.Across d := by
  unfold Across
  rw [toList_old_flip, toList_new_flip, Within.reverse_iff]

/-- Seen from the far corner, what leads to a point leads from it. -/
theorem fromStart_flip : g.flip.FromStart d i j ↔ g.ToEnd d (g.old.size - i) (g.new.size - j) := by
  unfold FromStart ToEnd
  rw [toList_old_flip, toList_new_flip, List.take_reverse, List.take_reverse, Within.reverse_iff,
    Array.length_toList, Array.length_toList]

theorem toEnd_flip (hi : i ≤ g.old.size) (hj : j ≤ g.new.size) :
    g.flip.ToEnd d i j ↔ g.FromStart d (g.old.size - i) (g.new.size - j) := by
  have h := fromStart_flip (g := g.flip) (d := d) (i := g.old.size - i) (j := g.new.size - j)
  rw [flip_flip, size_old_flip, size_new_flip, Nat.sub_sub_self hi, Nat.sub_sub_self hj] at h
  exact h.symm

end GoldenHarness.Diff.Grid

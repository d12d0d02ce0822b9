import GoldenHarness.Proofs.Diff.Reading

/-!
# Runs of unchanged lines

The lines that a diff shows are changes and unchanged lines. What is shown around the changes is told by
the runs of unchanged lines: the one before the first change, the one after the last change, and those
between a change and the next one.
-/

namespace GoldenHarness.Diff

/-- Whether a line is in one of the two lists only. -/
def Marked.isChange (m : Marked) : Bool := m.mark ≠ ' '

/-- The number of unchanged lines among some lines. -/
def unchanged (lines : List Marked) : Nat := lines.countP fun m => !m.isChange

/-- The number of unchanged lines before the first change. -/
def leading (lines : List Marked) : Nat := (lines.takeWhile fun m => !m.isChange).length

/-- The number of unchanged lines after the last change. -/
def trailing (lines : List Marked) : Nat := leading lines.reverse

/-- No more than `n` unchanged lines stand between a change and the next one. -/
def CloseWithin (n : Nat) (lines : List Marked) : Prop :=
  ∀ above c between d below, lines = above ++ c :: (between ++ d :: below) →
    c.isChange → d.isChange → (∀ m ∈ between, ¬ m.isChange) → between.length ≤ n

section Splits

variable {β : Type} {xs ys above between below : List β} {c d : β}

/-- Two elements of two lists in a row are both in the first, or one in each, or both in the second. -/
theorem split_pair (h : xs ++ ys = above ++ c :: (between ++ d :: below)) :
    (∃ below', xs = above ++ c :: (between ++ d :: below')) ∨
      (∃ post pre, xs = above ++ c :: post ∧ ys = pre ++ d :: below ∧ between = post ++ pre) ∨
      ∃ above', above = xs ++ above' ∧ ys = above' ++ c :: (between ++ d :: below) := by
  rcases List.append_eq_append_iff.mp h with ⟨above', habove, hys⟩ | ⟨post, hxs, hrest⟩
  · exact Or.inr (Or.inr ⟨above', habove, hys⟩)
  · -- the first list ends within what comes from `c` on, and `d` may come before or after its end
    cases post with
    | nil =>
      rw [List.append_nil] at hxs
      exact Or.inr (Or.inr ⟨[], by rw [hxs, List.append_nil], hrest.symm⟩)
    | cons c' post =>
      obtain ⟨rfl, hnext⟩ := List.cons.inj hrest
      rcases List.append_eq_append_iff.mp hnext with ⟨tail, hpost, htail⟩ | ⟨pre, hbetween, hys⟩
      · cases tail with
        | nil =>
          rw [List.append_nil] at hpost
          exact Or.inr (Or.inl ⟨post, [], hxs, htail.symm, by rw [hpost, List.append_nil]⟩)
        | cons d' tail =>
          obtain ⟨rfl, -⟩ := List.cons.inj htail
          exact Or.inl ⟨tail, by rw [hxs, hpost]⟩
      · exact Or.inr (Or.inl ⟨post, pre, hxs, hys, hbetween⟩)

/-- An element that is not in the first of two lists in a row is in the second. -/
theorem split_of_not_mem (h : xs ++ ys = above ++ c :: below) (hc : c ∉ xs) :
    ∃ above', above = xs ++ above' ∧ ys = above' ++ c :: below := by
  rcases List.append_eq_append_iff.mp h with ⟨above', habove, hys⟩ | ⟨post, hxs, hrest⟩
  · exact ⟨above', habove, hys⟩
  · cases post with
    | nil =>
      rw [List.append_nil] at hxs
      exact ⟨[], by rw [hxs, List.append_nil], hrest.symm⟩
    | cons c' post =>
      obtain ⟨rfl, -⟩ := List.cons.inj hrest
      exact absurd (by simp [hxs]) hc

end Splits

/-! ## Before the first change and after the last one -/

section Ends

variable {xs ys : List Marked} {c : Marked}

theorem leading_cons (c : Marked) (xs : List Marked) :
    leading (c :: xs) = if c.isChange then 0 else leading xs + 1 := by
  unfold leading
  rw [List.takeWhile_cons]
  cases c.isChange <;> rfl

/-- Nothing after a change has a part in what is before it. -/
theorem leading_append_change (hc : c.isChange) (xs ys : List Marked) :
    leading (xs ++ c :: ys) = leading xs := by
  induction xs with
  | nil =>
    rw [List.nil_append, leading_cons, if_pos hc]
    rfl
  | cons m xs ih => rw [List.cons_append, leading_cons, leading_cons, ih]

theorem leading_append_of_change (h : ∃ m ∈ xs, m.isChange) (ys : List Marked) :
    leading (xs ++ ys) = leading xs := by
  obtain ⟨m, hm, hchange⟩ := h
  obtain ⟨before, after, rfl⟩ := List.append_of_mem hm
  rw [List.append_assoc, List.cons_append, leading_append_change hchange,
    leading_append_change hchange]

theorem leading_append_of_unchanged (h : ∀ m ∈ xs, ¬ m.isChange) (ys : List Marked) :
    leading (xs ++ ys) = xs.length + leading ys := by
  have hall : ∀ m ∈ xs, (!m.isChange) = true := fun m hm => by simpa using h m hm
  unfold leading
  rw [List.takeWhile_append_of_pos hall, List.length_append]

theorem leading_of_unchanged (h : ∀ m ∈ xs, ¬ m.isChange) : leading xs = xs.length := by
  rw [← List.append_nil xs, leading_append_of_unchanged h]
  unfold leading
  simp

theorem trailing_append_change (hc : c.isChange) (xs : List Marked) : trailing (xs ++ [c]) = 0 := by
  unfold trailing
  rw [List.reverse_append, List.reverse_singleton, List.singleton_append, leading_cons,
    if_pos hc]

theorem trailing_append_of_unchanged (h : ∀ m ∈ ys, ¬ m.isChange) (xs : List Marked) :
    trailing (xs ++ ys) = ys.length + trailing xs := by
  unfold trailing
  rw [List.reverse_append, leading_append_of_unchanged (by simpa using h),
    List.length_reverse]

/-- What comes before a change has the unchanged lines before the first change. -/
theorem leading_le_unchanged (hc : c.isChange) (xs ys : List Marked) :
    leading (xs ++ c :: ys) ≤ unchanged xs := by
  rw [leading_append_change hc]
  induction xs with
  | nil => exact Nat.zero_le _
  | cons m xs ih =>
    rw [leading_cons, unchanged, List.countP_cons]
    cases m.isChange with
    | true => exact Nat.zero_le _
    | false => exact Nat.succ_le_succ ih

theorem trailing_le_unchanged (hc : c.isChange) (xs ys : List Marked) :
    trailing (xs ++ c :: ys) ≤ unchanged ys := by
  have h := leading_le_unchanged hc ys.reverse xs.reverse
  rw [unchanged, List.countP_reverse] at h
  rwa [trailing, List.reverse_append, List.reverse_cons, List.append_assoc, List.singleton_append]

end Ends

/-! ## Between a change and the next one -/

section Close

variable {n : Nat} {xs ys : List Marked}

theorem closeWithin_of_unchanged (h : ∀ m ∈ xs, ¬ m.isChange) : CloseWithin n xs := by
  rintro above c between d below rfl hc - -
  exact absurd hc (h c (by simp))

theorem closeWithin_of_changes (h : ∀ m ∈ xs, m.isChange) : CloseWithin n xs := by
  rintro above c between d below rfl - - hbetween
  cases between with
  | nil => exact Nat.zero_le n
  | cons m between => exact absurd (h m (by simp)) (hbetween m List.mem_cons_self)

/-- Where two lists of lines meet, the unchanged lines that end the first and begin the second come
together. -/
theorem CloseWithin.append (hxs : CloseWithin n xs) (hys : CloseWithin n ys)
    (h : trailing xs + leading ys ≤ n) : CloseWithin n (xs ++ ys) := by
  intro above c between d below heq hc hd hbetween
  rcases split_pair heq with ⟨below', hin⟩ | ⟨post, pre, rfl, rfl, rfl⟩ | ⟨above', -, hin⟩
  · exact hxs above c between d below' hin hc hd hbetween
  · obtain ⟨hpost, hpre⟩ := List.forall_mem_append.mp hbetween
    have htrailing : trailing (above ++ c :: post) = post.length := by
      rw [List.append_cons, trailing_append_of_unchanged hpost, trailing_append_change hc,
        Nat.add_zero]
    have hleading : leading (pre ++ d :: below) = pre.length := by
      rw [leading_append_change hd, leading_of_unchanged hpre]
    rwa [htrailing, hleading, ← List.length_append] at h
  · exact hys above' c between d below hin hc hd hbetween

end Close

end GoldenHarness.Diff

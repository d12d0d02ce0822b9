import GoldenHarness.Proofs.Diff.Cost
import GoldenHarness.Proofs.Diff.Golden
import Mathlib.Algebra.Ring.Nat

/-!
# The difference shows no more than it has to

The lines that a difference marks as deleted or inserted are those of its script, and no script has
fewer. What is left of the two texts is a longest common subsequence of their lines.
-/

namespace GoldenHarness.Diff

open List

variable {α : Type}

namespace Stretch

/-- The number of lines that a stretch deletes. -/
def deleted : Stretch α → Nat
  | .kept .. => 0
  | .changed removed .. => removed.length

/-- The number of lines that a stretch inserts. -/
def inserted : Stretch α → Nat
  | .kept .. => 0
  | .changed _ added .. => added.length

@[simp] theorem deleted_kept (lines : List α) (old new : Nat) :
    (kept lines old new).deleted = 0 := rfl

@[simp] theorem deleted_changed (removed added : List α) (old new : Nat) :
    (changed removed added old new).deleted = removed.length := rfl

@[simp] theorem inserted_kept (lines : List α) (old new : Nat) :
    (kept lines old new).inserted = 0 := rfl

@[simp] theorem inserted_changed (removed added : List α) (old new : Nat) :
    (changed removed added old new).inserted = added.length := rfl

/-- The number of lines that some stretches delete. -/
def allDeleted (stretches : List (Stretch α)) : Nat := (stretches.map deleted).sum

/-- The number of lines that some stretches insert. -/
def allInserted (stretches : List (Stretch α)) : Nat := (stretches.map inserted).sum

theorem counts_of_join? {s t joined : Stretch α} (h : s.join? t = some joined) :
    joined.deleted = s.deleted + t.deleted ∧ joined.inserted = s.inserted + t.inserted := by
  cases s <;> cases t <;> simp only [join?, Option.some.injEq, reduceCtorEq] at h <;> subst h <;>
    simp

theorem counts_push (s : Stretch α) (stretches : List (Stretch α)) :
    allDeleted (push s stretches) = s.deleted + allDeleted stretches ∧
      allInserted (push s stretches) = s.inserted + allInserted stretches := by
  unfold push allDeleted allInserted
  split
  · simp
  · split
    · next joined hjoined =>
      obtain ⟨hdeleted, hinserted⟩ := counts_of_join? hjoined
      simp [hdeleted, hinserted, Nat.add_assoc]
    · simp

/-- Reading edits together changes nothing in what they cost. -/
theorem counts_ofScript (script : List (Edit α)) :
    allDeleted (ofScript script) + allInserted (ofScript script) = cost script := by
  induction script with
  | nil => rfl
  | cons e script ih =>
    have hpush := counts_push (ofEdit e) (ofScript script)
    have hstep : ofScript (e :: script) = push (ofEdit e) (ofScript script) := rfl
    have hedit : (ofEdit e).deleted + (ofEdit e).inserted =
        if e.isChange then e.lines.length else 0 := by
      cases hkind : e.kind <;> simp [ofEdit, isChange_iff, hkind]
    rw [hstep, hpush.1, hpush.2, cost_cons, ← ih, ← hedit]
    omega

/-- What is deleted and inserted makes up for the difference in length. -/
theorem length_before_add_inserted (stretches : List (Stretch α)) :
    (stretches.flatMap before).length + allInserted stretches =
      (stretches.flatMap after).length + allDeleted stretches := by
  induction stretches with
  | nil => rfl
  | cons s stretches ih =>
    have hs : s.before.length + s.inserted = s.after.length + s.deleted := by
      cases s with
      | kept => rfl
      | changed removed added => exact Nat.add_comm _ _
    simp only [flatMap_cons, length_append, allInserted, allDeleted, map_cons, sum_cons] at ih ⊢
    omega

end Stretch

namespace Hunk

variable {side : Stretch α → Nat}

theorem sum_of_kept (hside : ∀ l o n, side (.kept l o n) = 0) {held : Hunk α}
    (h : ¬ held.any Stretch.isChanged) : (held.map side).sum = 0 := by
  induction held with
  | nil => rfl
  | cons s held ih =>
    simp only [any_cons, Bool.or_eq_true, not_or] at h
    rw [map_cons, sum_cons, ih h.2]
    cases s with
    | kept => rw [hside]
    | changed => exact absurd rfl h.1

/-- What is counted of changes only is counted alike in stretches and in the hunks that they form. -/
theorem sum_groupFrom (hside : ∀ l o n, side (.kept l o n) = 0) (radius : Nat) (held : Hunk α)
    (stretches : List (Stretch α)) :
    ((groupFrom radius held stretches).flatten.map side).sum =
      (held.map side).sum + (stretches.map side).sum := by
  induction stretches generalizing held with
  | nil =>
    rw [groupFrom_nil_eq]
    split
    · simp [sum_reverse]
    · next hkept =>
      rw [sum_of_kept hside hkept]
      rfl
  | cons s rest ih =>
    cases s with
    | changed r a o n =>
      rw [groupFrom_changed_eq, ih]
      simp only [map_cons, sum_cons]
      omega
    | kept l o n =>
      have hfirst (held : Hunk α) : (((Stretch.kept l o n).takeFirst radius :: held).map side).sum =
          (held.map side).sum := by
        rw [map_cons, sum_cons, Stretch.takeFirst_kept, hside, Nat.zero_add]
      rw [map_cons, sum_cons, hside, Nat.zero_add, groupFrom_kept_eq]
      split
      · rw [ih, hfirst]
      · split
        · rw [flatten_cons, map_append, sum_append, ih, map_reverse, sum_reverse, hfirst, map_cons,
            Stretch.takeLast_kept, sum_cons, hside]
          simp
        · rw [ih, map_cons, sum_cons, hside, Nat.zero_add]

theorem sum_group (hside : ∀ l o n, side (.kept l o n) = 0) (radius : Nat)
    (stretches : List (Stretch α)) :
    ((group radius stretches).flatten.map side).sum = (stretches.map side).sum := by
  obtain ⟨l, o, n, rest, rfl⟩ | hgroup := group_cases radius stretches
  · rw [group_kept_eq, map_cons, sum_cons, hside, Nat.zero_add]
    split
    · next hlast =>
      rw [isEmpty_iff.mp hlast]
      rfl
    · rw [sum_groupFrom hside, map_cons, Stretch.takeLast_kept, sum_cons, hside]
      simp
  · rw [hgroup, sum_groupFrom hside]
    simp

end Hunk

/-! ## Marked lines -/

/-- The number of lines with a mark in some blocks. -/
def countMarks (mark : Char) (blocks : List Block) : Nat :=
  (blocks.flatMap Block.lines).countP (·.mark = mark)

theorem countMarks_block (mark : Char) (hunks : List (Hunk Line)) :
    countMarks mark (hunks.map Hunk.block) =
      (hunks.flatten.map fun s => s.marked.countP (·.mark = mark)).sum := by
  have hlines : (hunks.map Hunk.block).flatMap Block.lines = hunks.flatten.flatMap Stretch.marked := by
    induction hunks with
    | nil => rfl
    | cons h hunks ih => rw [map_cons, flatMap_cons, flatten_cons, flatMap_append, ih]; rfl
  rw [countMarks, hlines, countP_flatMap]
  rfl

/-- The lines that are marked in a difference are as many as its stretches delete and insert. -/
theorem countMarks_hunks (expected actual : List Char) :
    let stretches := Stretch.ofScript (script expected actual)
    let blocks := (hunks expected actual).map Hunk.block
    countMarks '-' blocks = Stretch.allDeleted stretches ∧
      countMarks '+' blocks = Stretch.allInserted stretches := by
  intro stretches blocks
  have hdeleted : (fun s : Stretch Line => s.marked.countP (·.mark = '-')) = Stretch.deleted := by
    funext s
    cases s <;> simp [Stretch.marked, Stretch.deleted, countP_map, Function.comp_def]
  have hinserted : (fun s : Stretch Line => s.marked.countP (·.mark = '+')) = Stretch.inserted := by
    funext s
    cases s <;> simp [Stretch.marked, Stretch.inserted, countP_map, Function.comp_def]
  constructor
  · rw [countMarks_block, hdeleted]
    exact Hunk.sum_group (fun _ _ _ => rfl) contextRadius stretches
  · rw [countMarks_block, hinserted]
    exact Hunk.sum_group (fun _ _ _ => rfl) contextRadius stretches

/-- The marked lines are those of the script, and make up for the difference in length. -/
theorem countMarks_script (expected actual : List Char) :
    let blocks := (hunks expected actual).map Hunk.block
    countMarks '-' blocks + countMarks '+' blocks = cost (script expected actual) ∧
      (Line.split expected).length + countMarks '+' blocks =
        (Line.split actual).length + countMarks '-' blocks := by
  intro blocks
  obtain ⟨hdeleted, hinserted⟩ := countMarks_hunks expected actual
  rw [hdeleted, hinserted]
  have hlines := Stretch.lines_ofScript (script expected actual)
  have hrelates := relates_script expected actual
  have hlength := Stretch.length_before_add_inserted (Stretch.ofScript (script expected actual))
  rw [hlines.1, hlines.2, hrelates.1, hrelates.2] at hlength
  exact ⟨Stretch.counts_ofScript _, hlength⟩

/-! ## The least difference -/

/-- Where the texts of two outputs differ, the difference marks as few lines as any script has to delete
and insert: all but a longest common subsequence of the lines of each text. If one text has all lines
of the other, in their order, then none of the other's lines is marked. -/
theorem golden_marks_least {expected actual : Bytes} {expectedName actualName : String}
    (h : Utf8.decodeLossy expected ≠ Utf8.decodeLossy actual) :
    let old := Line.split (Utf8.decodeLossy expected)
    let new := Line.split (Utf8.decodeLossy actual)
    ∃ text blocks common,
      golden expected actual expectedName actualName =
          some (s!"--- {expectedName}\n+++ {actualName}\n" ++ String.ofList text) ∧
        read? text = some blocks ∧
        let deleted := countMarks '-' blocks
        let inserted := countMarks '+' blocks
        IsLongestCommon common old new ∧
          deleted + inserted = old.length + new.length - 2 * common.length ∧
          (∀ s : List (Edit Line), Relates s old new → deleted + inserted ≤ cost s) ∧
          (old <+ new → deleted = 0) ∧ (new <+ old → inserted = 0) := by
  intro old new
  have hrelates : Relates (script _ _) old new := relates_script _ _
  have hcost {d : Nat} (h : Within d old new) : cost (script _ _) ≤ d := cost_settle_search_le h
  obtain ⟨common, hcommon, hlength⟩ := exists_isLongestCommon (within_cost hrelates) fun _ => hcost
  refine ⟨_, _, common, golden_of_ne h, read?_difference _ _, ?_⟩
  intro deleted inserted
  have hmarks : deleted + inserted = cost (script _ _) ∧
      old.length + inserted = new.length + deleted := countMarks_script _ _
  refine ⟨hcommon, by omega, ?_, ?_, ?_⟩
  · intro s hs
    rw [hmarks.1]
    exact hcost (within_cost hs)
  · intro hsub
    have hle := hcommon.2.2 old (Sublist.refl old) hsub
    have hle' := hcommon.1.length_le
    omega
  · intro hsub
    have hle := hcommon.2.2 new hsub (Sublist.refl new)
    have hle' := hcommon.2.1.length_le
    omega

/-- A line that comes first instead of last is marked twice, and the two others not at all. -/
theorem golden_marks_least_of_moved_line :
    let expected := Bytes.ofString "a\nb\nc\n"
    let actual := Bytes.ofString "c\na\nb\n"
    ∃ text blocks,
      golden expected actual "trace.ok" "trace.log" =
          some ("--- trace.ok\n+++ trace.log\n" ++ String.ofList text) ∧
        read? text = some blocks ∧ countMarks '-' blocks + countMarks '+' blocks = 2 := by
  intro expected actual
  have hne : Utf8.decodeLossy expected ≠ Utf8.decodeLossy actual := by decide
  obtain ⟨text, blocks, common, hgolden, hread, ⟨hold, hnew, hlongest⟩, hcount, -⟩ :=
    @golden_marks_least _ _ "trace.ok" "trace.log" hne
  refine ⟨text, blocks, hgolden, hread, ?_⟩
  have hsplit : Line.split (Utf8.decodeLossy expected) = [['a', '\n'], ['b', '\n'], ['c', '\n']] := by
    decide
  have hsplit' : Line.split (Utf8.decodeLossy actual) = [['c', '\n'], ['a', '\n'], ['b', '\n']] := by
    decide
  rw [hsplit] at hold hlongest hcount
  rw [hsplit'] at hnew hlongest hcount
  have htwo := hlongest [['a', '\n'], ['b', '\n']] (by decide) (by decide)
  have hthree := hold.length_le
  simp only [length_cons, length_nil] at htwo hthree hcount
  -- a common subsequence of three lines would be both texts at once
  have hne : common.length ≠ 3 := by
    intro hlength
    have heq := hold.eq_of_length hlength
    have heq' := hnew.eq_of_length hlength
    rw [heq] at heq'
    exact absurd heq' (by decide)
  omega

end GoldenHarness.Diff

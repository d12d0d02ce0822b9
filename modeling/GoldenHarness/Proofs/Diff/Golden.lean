import GoldenHarness.Proofs.Diff.Grouping
import GoldenHarness.Proofs.Diff.Moving
import GoldenHarness.Proofs.Diff.Reading

/-!
# What the difference says

There is a difference between two outputs if and only if they are not the same bytes. Where their
texts differ, it shows hunks which, with the lines between them that it leaves out, make up both
texts.
-/

namespace GoldenHarness.Diff

/-- There is no difference between two outputs if and only if they are the same bytes. -/
theorem golden_eq_none_iff {expected actual : Bytes} {expectedName actualName : String} :
    golden expected actual expectedName actualName = none ↔ expected = actual := by
  unfold golden
  split
  · simp_all
  · dsimp only
    split <;> simp_all

/-! ## The hunks of a difference -/

/-- The script from one text to another relates their lines. -/
theorem relates_script (expected actual : List Char) :
    Relates (script expected actual) (Line.split expected) (Line.split actual) :=
  relates_settle_search _ _

/-- Where two texts differ, something is changed. -/
theorem isChanged_of_ne {expected actual : List Char} (h : expected ≠ actual) :
    (Stretch.ofScript (script expected actual)).any Stretch.isChanged := by
  by_contra hkept
  have hlines := Stretch.lines_ofScript (script expected actual)
  have hrelates := relates_script expected actual
  have hsame := Stretch.lines_of_kept hkept
  rw [hlines.1, hlines.2, hrelates.1, hrelates.2] at hsame
  apply h
  rw [← Line.flatten_split expected, ← hsame, Line.flatten_split]

/-- The hunks of the difference between two texts make up the lines of both, and are in their places. -/
theorem placed_hunks (expected actual : List Char) :
    ∃ first gaps, Covers (hunks expected actual) first gaps (Line.split expected)
      (Line.split actual) ∧
      HunksPlaced first.length first.length (hunks expected actual) gaps := by
  have hlines := Stretch.lines_ofScript (script expected actual)
  have hrelates := relates_script expected actual
  have hplaced := Stretch.placed_ofScript
    (placed_settle_search (Line.split expected) (Line.split actual))
  obtain ⟨first, gaps, hcovers, hhunks⟩ :=
    Hunk.covers_group contextRadius (Stretch.ofScript (script expected actual))
  rw [hlines.1, hlines.2, hrelates.1, hrelates.2] at hcovers
  have hshown := hhunks hplaced
  rw [Nat.zero_add] at hshown
  exact ⟨first, gaps, hcovers, hshown⟩

/-- The hunks of the difference between two texts make up the lines of both. -/
theorem covers_hunks (expected actual : List Char) :
    ∃ first gaps, Covers (hunks expected actual) first gaps (Line.split expected)
      (Line.split actual) := by
  obtain ⟨first, gaps, hcovers, -⟩ := placed_hunks expected actual
  exact ⟨first, gaps, hcovers⟩

/-- A reader finds in the difference between two texts the hunks of their script. -/
theorem read?_difference (expected actual : List Char) :
    read? ((hunks expected actual).flatMap Unified.hunk) =
      some ((hunks expected actual).map Hunk.block) := by
  obtain ⟨first, gaps, hcovers⟩ := covers_hunks expected actual
  refine read?_hunks fun hunk hhunk line hline => ?_
  rcases hcovers.mem hhunk hline with hline | hline <;> exact Line.isCut_of_mem_split hline

/-- Where the texts of two outputs differ, the difference is the hunks under the two names. -/
theorem golden_of_ne {expected actual : Bytes} {expectedName actualName : String}
    (h : Utf8.decodeLossy expected ≠ Utf8.decodeLossy actual) :
    golden expected actual expectedName actualName =
      some (s!"--- {expectedName}\n+++ {actualName}\n" ++ String.ofList
        ((hunks (Utf8.decodeLossy expected) (Utf8.decodeLossy actual)).flatMap Unified.hunk)) := by
  have hbytes : expected ≠ actual := fun heq => h (congrArg Utf8.decodeLossy heq)
  unfold golden
  rw [if_neg hbytes]
  dsimp only
  rw [if_pos (isChanged_of_ne h), Unified.render, String.ofList_append, String.ofList_toList]
  rfl

/-- Where the texts of two outputs differ, the difference loses and invents nothing: a reader finds in
it one hunk or more, which make up the lines of each text with the lines `first` before them and
`gaps` after them. So one text, the hunks and the lengths of the gaps give the other text. -/
theorem golden_reads_back {expected actual : Bytes} {expectedName actualName : String}
    (h : Utf8.decodeLossy expected ≠ Utf8.decodeLossy actual) :
    ∃ text blocks first gaps,
      golden expected actual expectedName actualName =
          some (s!"--- {expectedName}\n+++ {actualName}\n" ++ String.ofList text) ∧
        read? text = some blocks ∧ blocks ≠ [] ∧ gaps.length = blocks.length ∧
        Line.split (Utf8.decodeLossy expected) =
          first ++ (List.zipWith (· ++ ·) (blocks.map Block.old) gaps).flatten ∧
        Line.split (Utf8.decodeLossy actual) =
          first ++ (List.zipWith (· ++ ·) (blocks.map Block.new) gaps).flatten ∧
        patch first.length (blocks.zip (gaps.map List.length)) (Utf8.decodeLossy expected) =
          Utf8.decodeLossy actual := by
  generalize hshown : hunks (Utf8.decodeLossy expected) (Utf8.decodeLossy actual) = shown
  obtain ⟨first, gaps, hcovers⟩ :=
    covers_hunks (Utf8.decodeLossy expected) (Utf8.decodeLossy actual)
  rw [hshown] at hcovers
  have hread : read? (shown.flatMap Unified.hunk) = some (shown.map Hunk.block) := by
    refine read?_hunks fun hunk hhunk line hline => ?_
    rcases hcovers.mem hhunk hline with hline | hline
    · exact Line.isCut_of_mem_split hline
    · exact Line.isCut_of_mem_split hline
  have hlength : gaps.length = (shown.map Hunk.block).length := by
    rw [List.length_map, hcovers.length_eq]
  have hold : Line.split (Utf8.decodeLossy expected) = first ++
      (List.zipWith (· ++ ·) ((shown.map Hunk.block).map Block.old) gaps).flatten := by
    rw [List.map_map, ← hcovers.before_eq]
    simp only [Function.comp_def, old_block]
  have hnew : Line.split (Utf8.decodeLossy actual) = first ++
      (List.zipWith (· ++ ·) ((shown.map Hunk.block).map Block.new) gaps).flatten := by
    rw [List.map_map, ← hcovers.after_eq]
    simp only [Function.comp_def, new_block]
  refine ⟨shown.flatMap Unified.hunk, shown.map Hunk.block, first, gaps, ?_, hread, ?_, hlength, hold,
    hnew, ?_⟩
  · rw [golden_of_ne h, hshown]
  · intro hnil
    rw [← hshown] at hnil
    exact Hunk.group_ne_nil (isChanged_of_ne h) (List.map_eq_nil_iff.mp hnil)
  · rw [patch, hold, List.take_left, List.drop_left, applyBlocks_zip hlength, ← hnew,
      Line.flatten_split]

/-- A last line that has lost its line feed is read back without it, below a line that ends with a
carriage return. -/
theorem golden_reads_back_without_newline :
    let expected := Bytes.ofString "a\rb\n"
    let actual := Bytes.ofString "a\rb"
    ∃ text blocks first gaps,
      golden expected actual "trace.ok" "trace.log" =
          some ("--- trace.ok\n+++ trace.log\n" ++ String.ofList text) ∧
        read? text = some blocks ∧
        patch first (blocks.zip gaps) (Utf8.decodeLossy expected) = Utf8.decodeLossy actual := by
  intro expected actual
  have hne : Utf8.decodeLossy expected ≠ Utf8.decodeLossy actual := by decide
  obtain ⟨text, blocks, first, gaps, hgolden, hread, -, -, -, -, hpatch⟩ :=
    @golden_reads_back _ _ "trace.ok" "trace.log" hne
  exact ⟨text, blocks, first.length, gaps.map List.length, hgolden, hread, hpatch⟩

end GoldenHarness.Diff

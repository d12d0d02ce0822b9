import GoldenHarness.Proofs.Diff.Golden
import Mathlib.Data.List.TakeWhile

/-!
# What the headers say

The header of a hunk tells where its lines stand in either list and how many they are. It is made of the
positions that the first and the last stretch of the hunk record, so it is right for a list if both
stretches have lines of that list. If one of them has none, because the hunk begins or ends with a mere
insertion or deletion, then the recorded position may be out of date and the header with it.
-/

namespace GoldenHarness.Diff

variable {α : Type}

/-! ## Hunks with lines at both ends -/

namespace Stretch

theorem IsPlaced.old_eq {s : Stretch α} {i j : Nat} (h : s.IsPlaced i j) (hne : s.before ≠ []) :
    s.old = i := by
  cases s with
  | kept => exact h.1
  | changed => exact h.1 hne

theorem IsPlaced.new_eq {s : Stretch α} {i j : Nat} (h : s.IsPlaced i j) (hne : s.after ≠ []) :
    s.new = j := by
  cases s with
  | kept => exact h.2
  | changed => exact h.2 hne

end Stretch

namespace Hunk

/-- The first and the last stretch of a hunk have lines on a side. -/
def IsAnchored (side : Stretch α → List α) (h : Hunk α) : Prop :=
  (∃ s ∈ h.head?, side s ≠ []) ∧ ∃ s ∈ h.getLast?, side s ≠ []

instance (side : Stretch Line → List Line) (h : Hunk Line) : Decidable (h.IsAnchored side) :=
  inferInstanceAs (Decidable (_ ∧ _))

variable {h : Hunk α} {i j : Nat}

theorem Placed.ends (hplaced : Placed i j h) :
    (∀ s, h.head? = some s → s.IsPlaced i j) ∧
      ∀ s, h.getLast? = some s → ∃ k l, s.IsPlaced k l ∧ k + s.before.length = i + h.before.length ∧
        l + s.after.length = j + h.after.length := by
  constructor
  · intro s hs
    obtain ⟨rest, rfl⟩ := List.head?_eq_some_iff.mp hs
    exact hplaced.1
  · intro s hs
    obtain ⟨init, rfl⟩ := List.getLast?_eq_some_iff.mp hs
    obtain ⟨-, hlast, -⟩ := placed_append.mp hplaced
    refine ⟨_, _, hlast, ?_, ?_⟩
    · rw [before_append, before_singleton, List.length_append, Nat.add_assoc]
    · rw [after_append, after_singleton, List.length_append, Nat.add_assoc]

theorem oldBounds_of_anchored (hplaced : Placed i j h) (hanchored : h.IsAnchored Stretch.before) :
    h.oldBounds = (i, i + h.before.length) := by
  obtain ⟨⟨s, hs, hsne⟩, t, ht, htne⟩ := hanchored
  obtain ⟨hhead, hlast⟩ := hplaced.ends
  obtain ⟨k, l, hplace, hend, -⟩ := hlast t ht
  rw [oldBounds, Option.mem_def.mp hs, Option.mem_def.mp ht, ← hend, ← hplace.old_eq htne,
    ← (hhead s hs).old_eq hsne]
  rfl

theorem newBounds_of_anchored (hplaced : Placed i j h) (hanchored : h.IsAnchored Stretch.after) :
    h.newBounds = (j, j + h.after.length) := by
  obtain ⟨⟨s, hs, hsne⟩, t, ht, htne⟩ := hanchored
  obtain ⟨hhead, hlast⟩ := hplaced.ends
  obtain ⟨k, l, hplace, -, hend⟩ := hlast t ht
  rw [newBounds, Option.mem_def.mp hs, Option.mem_def.mp ht, ← hend, ← hplace.new_eq htne,
    ← (hhead s hs).new_eq hsne]
  rfl

end Hunk

/-! ## Ranges -/

/-- How so many lines after so many others are told: by the number of the first line and the number of
lines, which is left out if there is one line. If there is none, the number is that of the line before. -/
def rangeText (before count : Nat) : String :=
  if count = 0 then s!"{before},0"
  else if count = 1 then s!"{before + 1}"
  else s!"{before + 1},{count}"

theorem range_eq (before count : Nat) :
    Unified.range (before, before + count) = rangeText before count := by
  unfold Unified.range rangeText
  dsimp only
  rw [Nat.add_sub_cancel_left]
  match count with
  | 0 => rfl
  | 1 => rfl
  | n + 2 =>
    rw [if_neg (by omega), if_neg (by omega)]
    rfl

/-- Reads a number. -/
def number? (digits : List Char) : Option Nat :=
  if digits ≠ [] ∧ digits.all Char.isDigit then some (Nat.ofDigitChars 10 digits 0) else none

/-- Reads a range: the number of lines before it, and the number of lines in it. -/
def range? (text : List Char) : Option (Nat × Nat) :=
  match number? (text.takeWhile (· ≠ ',')), text.dropWhile (· ≠ ',') with
  | some (before + 1), [] => some (before, 1)
  | some start, ',' :: rest =>
    match number? rest, start with
    | some 0, before => some (before, 0)
    | some count, before + 1 => some (before, count)
    | _, _ => none
  | _, _ => none

/-- Reads the ranges of a header. -/
def ranges? (header : Line) : Option ((Nat × Nat) × (Nat × Nat)) :=
  match header with
  | '@' :: '@' :: ' ' :: '-' :: text =>
    match range? (text.takeWhile (· ≠ ' ')), text.dropWhile (· ≠ ' ') with
    | some old, ' ' :: '+' :: rest =>
      match range? (rest.takeWhile (· ≠ ' ')) with
      | some new => if rest.dropWhile (· ≠ ' ') = " @@\n".toList then some (old, new) else none
      | none => none
    | _, _ => none
  | _ => none

theorem number?_repr (n : Nat) : number? n.repr.toList = some n := by
  rw [Nat.toList_repr, number?, if_pos ⟨by simp, List.all_eq_true.mpr fun c hc =>
    Nat.isDigit_of_mem_toDigits (by decide) (by decide) hc⟩, Nat.ofDigitChars_ten_toDigits]

/-- A number has neither commas nor blanks in it. -/
theorem ne_of_mem_repr {n : Nat} {c d : Char} (hc : c ∈ n.repr.toList) (hd : ¬ d.isDigit) : c ≠ d := by
  rw [Nat.toList_repr] at hc
  rintro rfl
  exact hd (Nat.isDigit_of_mem_toDigits (by decide) (by decide) hc)

theorem span_append {text : List Char} {d : Char} (h : ∀ c ∈ text, c ≠ d) (rest : List Char) :
    (text ++ d :: rest).takeWhile (· ≠ d) = text ∧
      (text ++ d :: rest).dropWhile (· ≠ d) = d :: rest := by
  have hall : ∀ c ∈ text, decide (c ≠ d) = true := fun c hc => decide_eq_true (h c hc)
  constructor
  · rw [List.takeWhile_append_of_pos hall, List.takeWhile_cons_of_neg (by simp), List.append_nil]
  · rw [List.dropWhile_append_of_pos hall, List.dropWhile_cons_of_neg (by simp)]

theorem span_of_not_mem {text : List Char} {d : Char} (h : ∀ c ∈ text, c ≠ d) :
    text.takeWhile (· ≠ d) = text ∧ text.dropWhile (· ≠ d) = [] := by
  have hall : ∀ c ∈ text, decide (c ≠ d) = true := fun c hc => decide_eq_true (h c hc)
  exact ⟨List.takeWhile_eq_self_iff.mpr hall, List.dropWhile_eq_nil_iff.mpr hall⟩

/-- The characters of a range: a number, and another one after a comma. -/
theorem rangeText_toList (before count : Nat) :
    (rangeText before count).toList =
      if count = 0 then before.repr.toList ++ ',' :: (0 : Nat).repr.toList
      else if count = 1 then (before + 1).repr.toList
      else (before + 1).repr.toList ++ ',' :: count.repr.toList := by
  unfold rangeText
  split
  · exact String.toList_append
  · split
    · rfl
    · have hpair : s!"{before + 1},{count}" = (before + 1).repr ++ "," ++ count.repr := rfl
      rw [hpair, String.toList_append, String.toList_append, List.append_assoc]
      rfl

theorem range?_rangeText (before count : Nat) :
    range? (rangeText before count).toList = some (before, count) := by
  have hcomma (n : Nat) : ∀ c ∈ n.repr.toList, c ≠ ',' := fun c hc => ne_of_mem_repr hc (by decide)
  rw [rangeText_toList]
  match count with
  | 0 =>
    obtain ⟨htake, hdrop⟩ := span_append (hcomma before) (0 : Nat).repr.toList
    rw [if_pos rfl, range?, htake, hdrop]
    simp only [number?_repr]
  | 1 =>
    obtain ⟨htake, hdrop⟩ := span_of_not_mem (hcomma (before + 1))
    rw [if_neg (by decide), if_pos rfl, range?, htake, hdrop, number?_repr]
  | n + 2 =>
    obtain ⟨htake, hdrop⟩ := span_append (hcomma (before + 1)) (n + 2).repr.toList
    rw [if_neg (by omega), if_neg (by omega), range?, htake, hdrop]
    simp only [number?_repr]

theorem ne_blank_of_mem_rangeText (before count : Nat) :
    ∀ c ∈ (rangeText before count).toList, c ≠ ' ' := by
  intro c hc
  have hnumber {n : Nat} (hn : c ∈ n.repr.toList) : c ≠ ' ' := ne_of_mem_repr hn (by decide)
  have hpair {m n : Nat} (hmn : c ∈ m.repr.toList ++ ',' :: n.repr.toList) : c ≠ ' ' := by
    rcases List.mem_append.mp hmn with hm | hn
    · exact hnumber hm
    · rcases List.mem_cons.mp hn with rfl | hn
      · decide
      · exact hnumber hn
  rw [rangeText_toList] at hc
  split at hc
  · exact hpair hc
  · split at hc
    · exact hnumber hc
    · exact hpair hc

/-- The header with two ranges. -/
def headerText (old new : Nat × Nat) : String :=
  s!"@@ -{rangeText old.1 old.2} +{rangeText new.1 new.2} @@\n"

theorem ranges?_headerText (old new : Nat × Nat) :
    ranges? (headerText old new).toList = some (old, new) := by
  have htext : (headerText old new).toList = '@' :: '@' :: ' ' :: '-' ::
      ((rangeText old.1 old.2).toList ++ ' ' :: '+' ::
        ((rangeText new.1 new.2).toList ++ " @@\n".toList)) := by
    have happend : headerText old new = "@@ -" ++ rangeText old.1 old.2 ++ " +" ++
        rangeText new.1 new.2 ++ " @@\n" := rfl
    rw [happend]
    simp
  obtain ⟨hold, hafter⟩ := span_append (ne_blank_of_mem_rangeText old.1 old.2)
    ('+' :: ((rangeText new.1 new.2).toList ++ " @@\n".toList))
  obtain ⟨hnew, hend⟩ := span_append (ne_blank_of_mem_rangeText new.1 new.2) "@@\n".toList
  rw [htext, ranges?, hold, hafter]
  have hblank : " @@\n".toList = ' ' :: "@@\n".toList := rfl
  simp only [range?_rangeText, hblank, hnew, hend, if_pos]

/-! ## Changing a text by the headers -/

/-- Changes lines by hunks, of which the old lines up to position `i` are passed and the new lines up to
position `j` are written. Each hunk has to be where its header says, on both sides, and has to find its
old lines there. -/
def applyByHeaders : (i j : Nat) → List Block → List Line → Option (List Line)
  | _, _, [], lines => some lines
  | i, j, b :: rest, lines =>
    match ranges? b.header with
    | none => none
    | some (old, new) =>
      let between := old.1 - i
      if i ≤ old.1 ∧ new.1 = j + between ∧ old.2 = b.old.length ∧ new.2 = b.new.length ∧
          (lines.drop between).take b.old.length = b.old then
        (applyByHeaders (old.1 + old.2) (new.1 + new.2) rest
          ((lines.drop between).drop b.old.length)).map (lines.take between ++ b.new ++ ·)
      else none

/-- Changes a text by the hunks of a diff, as their headers say. -/
def patchByHeaders (blocks : List Block) (text : List Char) : Option (List Char) :=
  (applyByHeaders 0 0 blocks (Line.split text)).map List.flatten

/-- The header of a hunk is true where the hunk stands. -/
def Hunk.HasTrueHeader (i j : Nat) (h : Hunk Line) : Prop :=
  Unified.header h = headerText (i, h.before.length) (j, h.after.length)

theorem Hunk.hasTrueHeader_of_anchored {i j : Nat} {h : Hunk Line} (hplaced : h.Placed i j)
    (hold : h.IsAnchored Stretch.before) (hnew : h.IsAnchored Stretch.after) :
    h.HasTrueHeader i j := by
  have hheader : Unified.header h =
      s!"@@ -{Unified.range h.oldBounds} +{Unified.range h.newBounds} @@\n" := rfl
  rw [HasTrueHeader, hheader, oldBounds_of_anchored hplaced hold, newBounds_of_anchored hplaced hnew,
    range_eq, range_eq, headerText]

/-- Hunks with true headers lead from the one list to the other. -/
theorem applyByHeaders_eq {shown : List (Hunk Line)} {first : List Line} {gaps : List (List Line)}
    {i j : Nat} (hlength : gaps.length = shown.length)
    (htrue : Along (fun p : Hunk Line × List Line => p.1.before.length + p.2.length)
      (fun p => p.1.after.length + p.2.length) (fun i j p => p.1.HasTrueHeader i j)
      (i + first.length) (j + first.length) (shown.zip gaps)) :
    applyByHeaders i j (shown.map Hunk.block)
        (first ++ (List.zipWith (· ++ ·) (shown.map Hunk.before) gaps).flatten) =
      some (first ++ (List.zipWith (· ++ ·) (shown.map Hunk.after) gaps).flatten) := by
  -- on the hunks; before the first of them come the lines that are left between it and the last one
  induction shown generalizing first gaps i j with
  | nil => simp [applyByHeaders]
  | cons h shown ih =>
    cases gaps with
    | nil => cases hlength
    | cons gap gaps =>
      obtain ⟨hheader, hrest⟩ := htrue
      have hranges : ranges? h.block.header =
          some ((i + first.length, h.before.length), (j + first.length, h.after.length)) := by
        rw [Hunk.block, hheader, ranges?_headerText]
      dsimp only at hrest
      rw [← Nat.add_assoc, ← Nat.add_assoc] at hrest
      have hnext := ih (Nat.succ.inj hlength) hrest
      let oldLines := (List.zipWith (· ++ ·) (shown.map Hunk.before) gaps).flatten
      let newLines := (List.zipWith (· ++ ·) (shown.map Hunk.after) gaps).flatten
      have hdrop : (first ++ (h.before ++ (gap ++ oldLines))).drop first.length =
          h.before ++ (gap ++ oldLines) := List.drop_left
      have hbetween : i + first.length - i = first.length := Nat.add_sub_cancel_left _ _
      show applyByHeaders i j (h.block :: shown.map Hunk.block)
          (first ++ (h.before ++ gap ++ oldLines)) = some (first ++ (h.after ++ gap ++ newLines))
      rw [List.append_assoc h.before, List.append_assoc h.after, applyByHeaders, hranges]
      dsimp only
      rw [hbetween, hdrop, old_block, new_block, List.take_left, List.drop_left, List.take_left,
        if_pos ⟨Nat.le_add_right _ _, rfl, rfl, rfl, rfl⟩]
      rw [hnext]
      simp [newLines]

/-! ## The headers of a difference -/

/-- The number of lines on one side before a hunk: those before the first hunk, and those of each hunk
before this one and of the gap after it. -/
def linesBefore (side : Hunk Line → List Line) (shown : List (Hunk Line)) (first : List Line)
    (gaps : List (List Line)) (k : Nat) : Nat :=
  (first ++ (List.zipWith (· ++ ·) ((shown.take k).map side) gaps).flatten).length

theorem linesBefore_eq (side : Hunk Line → List Line) (shown : List (Hunk Line)) (first : List Line)
    (gaps : List (List Line)) (k : Nat) :
    linesBefore side shown first gaps k = first.length +
      extent (fun p => (side p.1).length + p.2.length) ((shown.zip gaps).take k) := by
  have hextent : (List.zipWith (· ++ ·) ((shown.take k).map side) gaps).flatten.length =
      extent (fun p => (side p.1).length + p.2.length) ((shown.zip gaps).take k) := by
    induction k generalizing shown gaps with
    | zero => simp
    | succ k ih =>
      cases shown with
      | nil => simp
      | cons h shown =>
        cases gaps with
        | nil => simp
        | cons gap gaps =>
          rw [List.take_succ_cons, List.map_cons, List.zipWith_cons_cons, List.flatten_cons,
            List.length_append, List.length_append, ih, List.zip_cons_cons, List.take_succ_cons,
            extent]
  rw [linesBefore, List.length_append, hextent]

theorem placed_of_hunksPlaced {shown : List (Hunk Line)} {first : List Line} {gaps : List (List Line)}
    (hplaced : HunksPlaced first.length first.length shown gaps)
    (hlength : gaps.length = shown.length) {k : Nat} {hunk : Hunk Line} (hk : shown[k]? = some hunk) :
    hunk.Placed (linesBefore Hunk.before shown first gaps k)
      (linesBefore Hunk.after shown first gaps k) := by
  have hlt : k < shown.length := (List.getElem?_eq_some_iff.mp hk).1
  have hpair : (shown.zip gaps)[k]? = some (hunk, gaps[k]) :=
    List.getElem?_zip_eq_some.mpr ⟨hk, List.getElem?_eq_getElem _⟩
  rw [linesBefore_eq, linesBefore_eq]
  exact Along.getElem? hplaced hpair

/-- **What the headers of a difference say.** Where the texts of two outputs differ, the difference is
made of hunks, which with the lines between them make up both texts. The header of a hunk has a range
for each side. If the first and the last stretch of the hunk have lines on a side, the range of that
side tells how many lines of it are before the hunk and how many are in it. If that is so for all hunks
and both sides, a reader who goes by the headers makes the one text into the other.

A hunk that begins or ends with a mere insertion or deletion may have a header that is out of date. -/
theorem golden_headers_of_anchored {expected actual : Bytes} {expectedName actualName : String}
    (h : Utf8.decodeLossy expected ≠ Utf8.decodeLossy actual) :
    let shown := hunks (Utf8.decodeLossy expected) (Utf8.decodeLossy actual)
    golden expected actual expectedName actualName =
        some (s!"--- {expectedName}\n+++ {actualName}\n" ++
          String.ofList (shown.flatMap Unified.hunk)) ∧
      read? (shown.flatMap Unified.hunk) = some (shown.map Hunk.block) ∧
      (∃ first gaps,
        Covers shown first gaps (Line.split (Utf8.decodeLossy expected))
          (Line.split (Utf8.decodeLossy actual)) ∧
        ∀ k hunk, shown[k]? = some hunk → ∃ oldRange newRange,
          hunk.block.header = s!"@@ -{oldRange} +{newRange} @@\n".toList ∧
          (hunk.IsAnchored Stretch.before → oldRange =
            rangeText (linesBefore Hunk.before shown first gaps k) hunk.block.old.length) ∧
          (hunk.IsAnchored Stretch.after → newRange =
            rangeText (linesBefore Hunk.after shown first gaps k) hunk.block.new.length)) ∧
      ((∀ hunk ∈ shown, hunk.IsAnchored Stretch.before ∧ hunk.IsAnchored Stretch.after) →
        patchByHeaders (shown.map Hunk.block) (Utf8.decodeLossy expected) =
          some (Utf8.decodeLossy actual)) := by
  intro shown
  obtain ⟨first, gaps, hcovers, hplaced⟩ :=
    placed_hunks (Utf8.decodeLossy expected) (Utf8.decodeLossy actual)
  refine ⟨golden_of_ne h, ?_, ⟨first, gaps, hcovers, fun k hunk hk => ?_⟩, fun hanchored => ?_⟩
  · refine read?_hunks fun hunk hhunk line hline => ?_
    rcases hcovers.mem hhunk hline with hline | hline <;> exact Line.isCut_of_mem_split hline
  · have hhunk := placed_of_hunksPlaced hplaced hcovers.length_eq hk
    refine ⟨Unified.range hunk.oldBounds, Unified.range hunk.newBounds, rfl, fun hold => ?_,
      fun hnew => ?_⟩
    · rw [Hunk.oldBounds_of_anchored hhunk hold, range_eq, old_block]
    · rw [Hunk.newBounds_of_anchored hhunk hnew, range_eq, new_block]
  · have htrue := Along.mono hplaced fun p hp {i j} (hhunk : p.1.Placed i j) =>
      have hends := hanchored p.1 (List.of_mem_zip hp).1
      Hunk.hasTrueHeader_of_anchored hhunk hends.1 hends.2
    have happly : applyByHeaders 0 0 (shown.map Hunk.block) _ = some _ :=
      applyByHeaders_eq hcovers.length_eq (by rw [Nat.zero_add]; exact htrue)
    rw [hcovers.before_eq, hcovers.after_eq] at happly
    rw [patchByHeaders, happly, Option.map_some, Line.flatten_split]

/-- Lines put between two others are found by the header of their hunk. -/
theorem golden_headers_of_inserted_lines :
    let expected := Bytes.ofString "a\nb\n"
    let actual := Bytes.ofString "a\nc\nd\nb\n"
    ∃ text blocks,
      golden expected actual "trace.ok" "trace.log" =
          some ("--- trace.ok\n+++ trace.log\n" ++ String.ofList text) ∧
        read? text = some blocks ∧
        blocks.map Block.header = ["@@ -1,2 +1,4 @@\n".toList] ∧
        patchByHeaders blocks (Utf8.decodeLossy expected) = some (Utf8.decodeLossy actual) := by
  intro expected actual
  have hne : Utf8.decodeLossy expected ≠ Utf8.decodeLossy actual := by decide
  obtain ⟨hgolden, hread, -, hpatch⟩ := @golden_headers_of_anchored _ _ "trace.ok" "trace.log" hne
  exact ⟨_, _, hgolden, hread, by decide +kernel, hpatch (by decide +kernel)⟩

/-- A header that is out of date. The insertion moved down past the deletion, and neither took over
the position that it came to. The hunk has three lines of each side, from the first line on, and its
header tells of two lines, on the new side of the second and the third. -/
theorem golden_header_of_moved_lines :
    let expected := Bytes.ofString "a\nb\nb\n"
    let actual := Bytes.ofString "b\nb\nb\n"
    let text := "@@ -1,2 +2,2 @@\n-a\n b\n b\n+b\n"
    golden expected actual "trace.ok" "trace.log" =
        some ("--- trace.ok\n+++ trace.log\n" ++ text) ∧
      ∃ block, read? text.toList = some [block] ∧
        block.old = Line.split (Utf8.decodeLossy expected) ∧
        block.new = Line.split (Utf8.decodeLossy actual) ∧
        ranges? block.header = some ((0, 2), (1, 2)) ∧
        patchByHeaders [block] (Utf8.decodeLossy expected) = none := by
  intro expected actual text
  refine ⟨by decide +kernel, ?_⟩
  exact ⟨⟨"@@ -1,2 +2,2 @@\n".toList,
    [⟨'-', "a\n".toList⟩, ⟨' ', "b\n".toList⟩, ⟨' ', "b\n".toList⟩, ⟨'+', "b\n".toList⟩]⟩,
    by decide +kernel, by decide +kernel, by decide +kernel, by decide +kernel, by decide +kernel⟩

end GoldenHarness.Diff

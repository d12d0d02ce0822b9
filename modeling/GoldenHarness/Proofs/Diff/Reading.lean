import GoldenHarness.Diff.Unified
import GoldenHarness.Proofs.Text.Line
import Mathlib.Data.List.Basic

/-!
# Reading a diff

A reader of unified diffs, and the proof that it finds in the text of a diff the hunks that were
written into it: every line with its mark and with the end it had, or did not have.
-/

namespace GoldenHarness.Diff

/-! ## What a diff shows -/

/-- A line that a diff shows. -/
structure Marked where
  /-- A blank for a line of both sides, a minus for one of the old side, a plus for one of the new. -/
  mark : Char
  /-- The line, its end included. -/
  line : Line
deriving DecidableEq, Repr

/-- A hunk as a diff shows it. -/
structure Block where
  /-- The line that the hunk begins with. -/
  header : Line
  /-- The lines below it. -/
  lines : List Marked
deriving DecidableEq, Repr

namespace Block

/-- The lines of the old side. -/
def old (b : Block) : List Line :=
  (b.lines.filter fun m => m.mark = ' ' ∨ m.mark = '-').map Marked.line

/-- The lines of the new side. -/
def new (b : Block) : List Line :=
  (b.lines.filter fun m => m.mark = ' ' ∨ m.mark = '+').map Marked.line

end Block

/-! ## The reader -/

/-- The marks of the lines that a diff shows. -/
def marks : List Char := [' ', '-', '+']

/-- The line that says that the line before it has no end. -/
def hint : Line := "\\ No newline at end of file\n".toList

/-- Takes the line feed away from each line that a hint follows, and the hints. -/
def withoutHints : List Line → List Line
  | line :: next :: rest =>
    if next = hint then line.dropLast :: withoutHints rest else line :: withoutHints (next :: rest)
  | lines => lines

/-- Whether a line begins a hunk. -/
def isHeader : Line → Bool
  | '@' :: '@' :: ' ' :: '-' :: _ => true
  | _ => false

/-- Reads the lines of the hunk that has been begun, and the hunks after it. -/
def blocks? : List Line → Option (List Marked × List Block)
  | [] => some ([], [])
  | [] :: _ => none
  | (mark :: text) :: rest =>
    match blocks? rest with
    | none => none
    | some (lines, blocks) =>
      if isHeader (mark :: text) then some ([], ⟨mark :: text, lines⟩ :: blocks)
      else if mark ∈ marks then some (⟨mark, text⟩ :: lines, blocks)
      else none

/-- Reads the hunks of a diff, from the text after the names of the two sides. -/
def read? (text : List Char) : Option (List Block) :=
  match blocks? (withoutHints (Line.split text)) with
  | some ([], blocks) => some blocks
  | _ => none

/-- Changes lines by hunks, each with the number of the lines between it and the next one: the old
lines of a hunk are passed over, and its new lines stand in their place. -/
def applyBlocks : List (Block × Nat) → List Line → List Line
  | [], lines => lines
  | (b, gap) :: rest, lines =>
    b.new ++ ((lines.drop b.old.length).take gap ++
      applyBlocks rest ((lines.drop b.old.length).drop gap))

/-- Changes a text by the hunks of a diff, the first of them after `first` lines. -/
def patch (first : Nat) (blocks : List (Block × Nat)) (text : List Char) : List Char :=
  ((Line.split text).take first ++ applyBlocks blocks ((Line.split text).drop first)).flatten

/-! ## What is written -/

/-- The text of a marked line. -/
def Marked.text (m : Marked) : List Char := Unified.line m.mark m.line

/-- The marked lines of a stretch. -/
def Stretch.marked : Stretch Line → List Marked
  | .kept lines _ _ => lines.map (⟨' ', ·⟩)
  | .changed removed added _ _ => removed.map (⟨'-', ·⟩) ++ added.map (⟨'+', ·⟩)

/-- A hunk as a diff shows it. -/
def Hunk.block (h : Hunk Line) : Block := ⟨(Unified.header h).toList, h.flatMap Stretch.marked⟩

/-- Changing lines by hunks gives the new lines of the hunks in the place of the old ones. -/
theorem applyBlocks_zip {blocks : List Block} {gaps : List (List Line)}
    (h : gaps.length = blocks.length) :
    applyBlocks (blocks.zip (gaps.map List.length))
        (List.zipWith (· ++ ·) (blocks.map Block.old) gaps).flatten =
      (List.zipWith (· ++ ·) (blocks.map Block.new) gaps).flatten := by
  induction blocks generalizing gaps with
  | nil => rfl
  | cons b blocks ih =>
    cases gaps with
    | nil => cases h
    | cons gap gaps =>
      have ih := ih (Nat.succ.inj h)
      simp [applyBlocks, ih]

theorem body_eq (s : Stretch Line) : Unified.body s = s.marked.flatMap Marked.text := by
  cases s <;> simp [Unified.body, Stretch.marked, Marked.text, List.flatMap_map]

theorem hunk_eq (h : Hunk Line) :
    Unified.hunk h = (Unified.header h).toList ++ h.block.lines.flatMap Marked.text := by
  simp only [Unified.hunk, Hunk.block, List.flatMap_assoc, ← body_eq]

/-- The marks are those that a diff shows. -/
theorem mark_of_mem_marked {s : Stretch Line} {m : Marked} (h : m ∈ s.marked) : m.mark ∈ marks := by
  cases s with
  | kept lines =>
    obtain ⟨line, -, rfl⟩ := List.mem_map.mp h
    exact List.mem_cons_self
  | changed removed added =>
    rcases List.mem_append.mp h with h | h
    · obtain ⟨line, -, rfl⟩ := List.mem_map.mp h
      simp [marks]
    · obtain ⟨line, -, rfl⟩ := List.mem_map.mp h
      simp [marks]

/-- A marked line is one of the lines on one side. -/
theorem line_of_mem_marked {s : Stretch Line} {m : Marked} (h : m ∈ s.marked) :
    m.line ∈ s.before ∨ m.line ∈ s.after := by
  cases s with
  | kept lines =>
    obtain ⟨line, hline, rfl⟩ := List.mem_map.mp h
    exact Or.inl hline
  | changed removed added =>
    rcases List.mem_append.mp h with h | h
    · obtain ⟨line, hline, rfl⟩ := List.mem_map.mp h
      exact Or.inl hline
    · obtain ⟨line, hline, rfl⟩ := List.mem_map.mp h
      exact Or.inr hline

/-- The old lines that a hunk shows are its old lines. -/
theorem old_block (h : Hunk Line) : h.block.old = h.before := by
  have hstretch (s : Stretch Line) :
      (s.marked.filter fun m => m.mark = ' ' ∨ m.mark = '-').map Marked.line = s.before := by
    cases s <;> simp [Stretch.marked, List.filter_map, Function.comp_def]
  simp only [Block.old, Hunk.block, Hunk.before, List.filter_flatMap, List.map_flatMap, hstretch]

/-- The new lines that a hunk shows are its new lines. -/
theorem new_block (h : Hunk Line) : h.block.new = h.after := by
  have hstretch (s : Stretch Line) :
      (s.marked.filter fun m => m.mark = ' ' ∨ m.mark = '+').map Marked.line = s.after := by
    cases s <;> simp [Stretch.marked, List.filter_map, Function.comp_def]
  simp only [Block.new, Hunk.block, Hunk.after, List.filter_flatMap, List.map_flatMap, hstretch]

/-! ## The header of a hunk -/

theorem isInner_repr (n : Nat) : Line.IsInner n.repr.toList := by
  intro c hc
  rw [Nat.toList_repr] at hc
  have hdigit := Nat.isDigit_of_mem_toDigits (by decide) (by decide) hc
  constructor <;> rintro rfl <;> exact absurd hdigit (by decide)

theorem isInner_range (bounds : Nat × Nat) : Line.IsInner (Unified.range bounds).toList := by
  have hpair (m n : Nat) : Line.IsInner (m.repr ++ "," ++ n.repr).toList := by
    rw [String.toList_append, String.toList_append]
    exact ((isInner_repr m).append (by decide)).append (isInner_repr n)
  unfold Unified.range
  dsimp only
  split
  · have hempty : s!"{bounds.1},0" = bounds.1.repr ++ "," ++ (0 : Nat).repr := by
      rw [String.append_assoc]
      rfl
    rw [hempty]
    exact hpair bounds.1 0
  · exact isInner_repr (bounds.1 + 1)
  · exact hpair (bounds.1 + 1) _

/-- A line that a diff shows does not begin a hunk. -/
theorem not_isHeader_of_mark {mark : Char} (h : mark ∈ marks) (text : List Char) :
    ¬ isHeader (mark :: text) := by
  unfold isHeader
  split
  · next heq =>
    obtain ⟨rfl, -⟩ := List.cons.inj heq
    exact absurd h (by decide)
  · exact Bool.false_ne_true

/-- The header of a hunk is one line, which begins a hunk. -/
theorem header_eq (h : Hunk Line) :
    ∃ text, Line.IsInner text ∧
      (Unified.header h).toList = ('@' :: '@' :: ' ' :: '-' :: text) ++ ['\n'] := by
  have hheader : Unified.header h = "@@ -" ++ Unified.range h.oldBounds ++ " +" ++
      Unified.range h.newBounds ++ " @@\n" := rfl
  refine ⟨(Unified.range h.oldBounds).toList ++ [' ', '+'] ++
    (Unified.range h.newBounds).toList ++ [' ', '@', '@'], ?_, ?_⟩
  · exact (((isInner_range _).append (by decide)).append (isInner_range _)).append (by decide)
  · rw [hheader]
    simp

theorem isHeader_header (h : Hunk Line) : isHeader (Unified.header h).toList := by
  obtain ⟨text, -, hheader⟩ := header_eq h
  rw [hheader]
  rfl

/-! ## Reading what is written -/

/-- A header ends the lines of the hunk before it. -/
theorem blocks?_header {header : Line} {rest : List Line} {lines : List Marked}
    {blocks : List Block} (h : isHeader header) (hrest : blocks? rest = some (lines, blocks)) :
    blocks? (header :: rest) = some ([], ⟨header, lines⟩ :: blocks) := by
  cases header with
  | nil => cases h
  | cons mark text => simp only [blocks?, hrest, if_pos h]

/-- A marked line comes before the other lines of its hunk. -/
theorem blocks?_marked {m : Marked} {rest : List Line} {lines : List Marked} {blocks : List Block}
    (h : m.mark ∈ marks) (hrest : blocks? rest = some (lines, blocks)) :
    blocks? ((m.mark :: m.line) :: rest) = some (m :: lines, blocks) := by
  simp only [blocks?, hrest, if_neg (not_isHeader_of_mark h m.line), if_pos h]

/-- A text that ends, or goes on with a marked line or with a hunk. -/
def Continues (text : List Char) : Prop := ∀ c ∈ text.head?, c = '@' ∨ c ∈ marks

theorem ne_of_isMark {c : Char} (h : c = '@' ∨ c ∈ marks) :
    (c ≠ '\n' ∧ c ≠ '\r') ∧ c ≠ '\\' := by
  simp only [marks, List.mem_cons, List.not_mem_nil, or_false] at h
  rcases h with rfl | rfl | rfl | rfl <;> decide

/-- Where a diff goes on, the line before has its end. -/
theorem Continues.head?_ne {text : List Char} (h : Continues text) : text.head? ≠ some '\n' := by
  intro hfeed
  exact (ne_of_isMark (h _ hfeed)).1.1 rfl

/-- Where a diff goes on, no hint follows. -/
theorem Continues.withoutHints_cons {text : List Char} (h : Continues text) (line : Line) :
    withoutHints (line :: Line.split text) = line :: withoutHints (Line.split text) := by
  cases hsplit : Line.split text with
  | nil => rfl
  | cons next lines =>
    have hnext : next ≠ hint := by
      rintro rfl
      cases text with
      | nil => cases hsplit
      | cons c text =>
        have hc := ne_of_isMark (h c rfl)
        have hhead := Line.head?_of_split_cons hc.1 hsplit
        exact hc.2 (Option.some.inj hhead).symm
    rw [withoutHints, if_neg hnext]

theorem noNewline_eq : Unified.noNewline = '\n' :: hint := rfl

theorem hint_eq : hint = '\\' :: " No newline at end of file\n".toList := rfl

theorem withoutHints_hint (line : Line) (lines : List Line) :
    withoutHints (line :: hint :: lines) = line.dropLast :: withoutHints lines := by
  rw [withoutHints, if_pos rfl]

theorem split_header_append (h : Hunk Line) {rest : List Char} (hrest : Continues rest) :
    Line.split ((Unified.header h).toList ++ rest) =
      (Unified.header h).toList :: Line.split rest := by
  have hfeed : ['\n'] ∈ Line.endings := by decide
  have hmark : Line.IsInner ['@', '@', ' ', '-'] := by decide
  obtain ⟨text, hinner, hheader⟩ := header_eq h
  rw [hheader]
  exact Line.split_append_of_ended (hmark.append hinner) hfeed hrest.head?_ne

theorem split_hint_append {rest : List Char} (hrest : Continues rest) :
    Line.split (hint ++ rest) = hint :: Line.split rest := by
  have hfeed : ['\n'] ∈ Line.endings := by decide
  have hinner : Line.IsInner hint.dropLast := by decide
  have hhint : hint = hint.dropLast ++ ['\n'] := by decide
  rw [hhint]
  exact Line.split_append_of_ended hinner hfeed hrest.head?_ne

/-- A marked line is read back, with its end or without. -/
theorem withoutHints_text_append {m : Marked} {rest : List Char} (hmark : m.mark ∈ marks)
    (hline : Line.IsCut m.line) (hrest : Continues rest) :
    withoutHints (Line.split (m.text ++ rest)) =
      (m.mark :: m.line) :: withoutHints (Line.split rest) := by
  have hmark := (ne_of_isMark (Or.inr hmark)).1
  cases hline with
  | @ended inner ending hinner hending hline =>
    have htext : m.text = (m.mark :: inner) ++ ending := by
      simp [Marked.text, Unified.line, hline, Line.isEnded_append_ending hending]
    rw [htext, Line.split_append_of_ended (hinner.cons hmark) hending hrest.head?_ne,
      hrest.withoutHints_cons, hline]
    rfl
  | unended hinner =>
    have hfeed : ['\n'] ∈ Line.endings := by decide
    have hnext : (hint ++ rest).head? ≠ some '\n' := by
      rw [hint_eq]
      exact fun h => absurd (Option.some.inj h) (by decide)
    have htext : m.text = (m.mark :: m.line) ++ ['\n'] ++ hint := by
      unfold Marked.text Unified.line
      rw [if_neg (Line.not_isEnded_of_isInner hinner), noNewline_eq]
      exact List.append_cons ..
    have hsplit : Line.split (m.text ++ rest) =
        ((m.mark :: m.line) ++ ['\n']) :: hint :: Line.split rest := by
      rw [htext, List.append_assoc _ hint, Line.split_append_of_ended (hinner.cons hmark) hfeed hnext,
        split_hint_append hrest]
    rw [hsplit, withoutHints_hint, List.dropLast_concat]

theorem continues_nil : Continues [] := by
  intro c hc
  cases hc

theorem continues_lines {lines : List Marked} {rest : List Char}
    (hlines : ∀ m ∈ lines, m.mark ∈ marks) (hrest : Continues rest) :
    Continues (lines.flatMap Marked.text ++ rest) := by
  cases lines with
  | nil => exact hrest
  | cons m lines =>
    intro c hc
    obtain rfl : m.mark = c := Option.some.inj hc
    exact Or.inr (hlines m List.mem_cons_self)

theorem continues_hunks (hunks : List (Hunk Line)) : Continues (hunks.flatMap Unified.hunk) := by
  cases hunks with
  | nil => exact continues_nil
  | cons h hunks =>
    obtain ⟨text, -, hheader⟩ := header_eq h
    intro c hc
    rw [List.flatMap_cons, Unified.hunk, hheader] at hc
    exact Or.inl (Option.some.inj hc).symm

/-- What is read of a diff from somewhere within a hunk: the rest of its lines, and the hunks after
it. -/
def readFrom (text : List Char) : Option (List Marked × List Block) :=
  blocks? (withoutHints (Line.split text))

theorem readFrom_lines {lines more : List Marked} {rest : List Char} {blocks : List Block}
    (hlines : ∀ m ∈ lines, m.mark ∈ marks ∧ Line.IsCut m.line) (hrest : Continues rest)
    (hread : readFrom rest = some (more, blocks)) :
    readFrom (lines.flatMap Marked.text ++ rest) = some (lines ++ more, blocks) := by
  induction lines with
  | nil => exact hread
  | cons m lines ih =>
    obtain ⟨hmark, hline⟩ := hlines m List.mem_cons_self
    have hothers : ∀ n ∈ lines, n.mark ∈ marks ∧ Line.IsCut n.line :=
      fun n hn => hlines n (List.mem_cons_of_mem m hn)
    have hnext := continues_lines (fun n hn => (hothers n hn).1) hrest
    have hread := ih hothers
    unfold readFrom at hread ⊢
    rw [List.flatMap_cons, List.append_assoc, withoutHints_text_append hmark hline hnext]
    exact blocks?_marked hmark hread

theorem readFrom_hunk {h : Hunk Line} {rest : List Char} {blocks : List Block}
    (hcut : ∀ line, line ∈ h.before ∨ line ∈ h.after → Line.IsCut line) (hrest : Continues rest)
    (hread : readFrom rest = some ([], blocks)) :
    readFrom (Unified.hunk h ++ rest) = some ([], h.block :: blocks) := by
  have hlines : ∀ m ∈ h.block.lines, m.mark ∈ marks ∧ Line.IsCut m.line := by
    intro m hm
    obtain ⟨s, hs, hm⟩ := List.mem_flatMap.mp hm
    refine ⟨mark_of_mem_marked hm, hcut _ ?_⟩
    rcases line_of_mem_marked hm with hline | hline
    · exact Or.inl (List.mem_flatMap_of_mem hs hline)
    · exact Or.inr (List.mem_flatMap_of_mem hs hline)
  have hnext := continues_lines (fun m hm => (hlines m hm).1) hrest
  have hread := readFrom_lines hlines hrest hread
  unfold readFrom at hread ⊢
  rw [List.append_nil] at hread
  rw [hunk_eq, List.append_assoc, split_header_append h hnext, hnext.withoutHints_cons]
  exact blocks?_header (isHeader_header h) hread

/-- A reader finds in a diff the hunks that were written. -/
theorem read?_hunks {hunks : List (Hunk Line)}
    (hcut : ∀ h ∈ hunks, ∀ line, line ∈ h.before ∨ line ∈ h.after → Line.IsCut line) :
    read? (hunks.flatMap Unified.hunk) = some (hunks.map Hunk.block) := by
  have hread : readFrom (hunks.flatMap Unified.hunk) = some ([], hunks.map Hunk.block) := by
    induction hunks with
    | nil => rfl
    | cons h hunks ih =>
      rw [List.flatMap_cons]
      exact readFrom_hunk (hcut h List.mem_cons_self) (continues_hunks hunks)
        (ih fun g hg => hcut g (List.mem_cons_of_mem h hg))
  unfold readFrom at hread
  rw [read?, hread]

example : (read? "@@ -1 +1 @@\n-a\r\n+a\n\\ No newline at end of file\n".toList).map
    (·.map fun b => (b.old, b.new)) = some [([['a', '\r', '\n']], [['a']])] := by
  decide

end GoldenHarness.Diff

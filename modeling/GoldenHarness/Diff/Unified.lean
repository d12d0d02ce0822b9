import GoldenHarness.Diff.Hunk
import GoldenHarness.Diff.Search
import GoldenHarness.Diff.Slide
import GoldenHarness.Text.Line
import GoldenHarness.Text.Utf8

/-!
# Unified diffs

The difference between an expected and an actual output, as a reader sees it: two header lines with
the names of the two sides, and hunks of changed lines with three unchanged lines around them.

Outputs are compared as bytes and shown as text, so two outputs can differ and yet read the same.
That is said in so many words, because a diff of the two texts would be empty.
-/

namespace GoldenHarness.Diff

/-- The number of unchanged lines shown before and after a change. -/
def contextRadius : Nat := 3

namespace Unified

/-- The range of a hunk header, from the positions at which a hunk begins and ends: the number of
its first line, and the number of its lines unless that is one. A hunk without lines is given the
number of the line before it. -/
def range (bounds : Nat × Nat) : String :=
  let (start, stop) := bounds
  match stop - start with
  | 0 => s!"{start},0"
  | 1 => s!"{start + 1}"
  | length => s!"{start + 1},{length}"

/-- The header of a hunk. -/
def header (h : Hunk Line) : String :=
  s!"@@ -{range h.oldBounds} +{range h.newBounds} @@\n"

/-- What follows a line that has no end. -/
def noNewline : List Char := "\n\\ No newline at end of file\n".toList

/-- A line of a hunk, after its mark. -/
def line (mark : Char) (l : Line) : List Char :=
  mark :: l ++ if Line.isEnded l then [] else noNewline

/-- The lines of a stretch, deletions before insertions. -/
def body : Stretch Line → List Char
  | .kept lines _ _ => lines.flatMap (line ' ')
  | .changed removed added _ _ => removed.flatMap (line '-') ++ added.flatMap (line '+')

/-- A hunk: its header, and then its lines. -/
def hunk (h : Hunk Line) : List Char :=
  (header h).toList ++ h.flatMap body

/-- A diff: the names of the two sides, and then the hunks. -/
def render (oldName newName : String) (hunks : List (Hunk Line)) : List Char :=
  s!"--- {oldName}\n+++ {newName}\n".toList ++ hunks.flatMap hunk

end Unified

/-- The edits from one text to another, line by line. -/
def script (expected actual : List Char) : List (Edit Line) :=
  settle (search (Line.split expected) (Line.split actual))

/-- The hunks of the difference between two texts. -/
def hunks (expected actual : List Char) : List (Hunk Line) :=
  Hunk.group contextRadius (Stretch.ofScript (script expected actual))

/-- What is said of outputs that differ but read the same. -/
def binaryDiffers (expectedName actualName : String) : String :=
  s!"Binary content differs: {expectedName} and {actualName}\n"

/-- The difference between an expected and an actual output, or nothing if they are the same bytes.
The names stand in the header. -/
def golden (expected actual : Bytes) (expectedName actualName : String) : Option String :=
  if expected = actual then none
  else
    let stretches := Stretch.ofScript (script (Utf8.decodeLossy expected) (Utf8.decodeLossy actual))
    if stretches.any Stretch.isChanged then
      some (String.ofList
        (Unified.render expectedName actualName (Hunk.group contextRadius stretches)))
    else some (binaryDiffers expectedName actualName)

end GoldenHarness.Diff

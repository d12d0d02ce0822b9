import GoldenHarness.Diff.Edit

/-!
# Moving edits

A script that the search finds may delete and insert in several places where one would do. Each
deletion, and then each insertion, is moved up as far as it goes and down again as far as it goes,
and takes up its like on the way.

An insertion moves past kept lines by sliding: when the lines before a block end like the block
itself, inserting the block one line earlier gives the same result. A deletion and an insertion that
meet change places. The recorded positions follow a slide, but not a change of places.
-/

namespace GoldenHarness.Diff

variable {α : Type}

namespace Edit

/-- By how many lines an edit can slide up over the kept lines before it. Deletions stay. -/
def slackUp [DecidableEq α] (e : Edit α) (kept : List α) : Nat :=
  match e.kind with
  | .insert => commonSuffix kept (kept ++ e.lines)
  | _ => 0

/-- By how many lines an edit can slide down over the kept lines after it. Deletions stay. -/
def slackDown [DecidableEq α] (e : Edit α) (kept : List α) : Nat :=
  match e.kind with
  | .insert => commonPrefix kept (e.lines ++ kept)
  | _ => 0

/-- The edit, `s` lines further up over the kept lines before it. -/
def slideUp (e : Edit α) (kept : List α) (s : Nat) : Edit α :=
  { e with
    lines := ((kept ++ e.lines).drop (kept.length - s)).take e.lines.length
    old := e.old - s
    new := e.new - s }

/-- The edit, `s` lines further down over the kept lines after it. -/
def slideDown (e : Edit α) (kept : List α) (s : Nat) : Edit α :=
  { e with
    lines := ((e.lines ++ kept).drop s).take e.lines.length
    old := e.old + s
    new := e.new + s }

end Edit

/-- The place of an edit in a script. -/
structure Cursor (α : Type) where
  /-- The edits before it, the nearest first. -/
  above : List (Edit α)
  /-- The edit. -/
  this : Edit α
  /-- The edits after it. -/
  below : List (Edit α)

namespace Cursor

/-- The script around a cursor. -/
def script (c : Cursor α) : List (Edit α) := c.above.reverse ++ c.this :: c.below

/-- Gives `s` kept lines, the last of `kept`, to the edits below `e`. -/
def passDown (e kept : Edit α) (s : Nat) (below : List (Edit α)) : List (Edit α) :=
  let moved := kept.lines.drop (kept.lines.length - s)
  if s = 0 then below
  else
    match below with
    | next :: rest =>
      if next.kind = .keep then
        { next with lines := moved ++ next.lines, old := next.old - s, new := next.new - s } :: rest
      else
        ⟨.keep, moved, kept.old + kept.lines.length - s, e.new + e.after.length - s⟩ :: below
    | [] => [⟨.keep, moved, kept.old + kept.lines.length - s, e.new + e.after.length - s⟩]

/-- Gives `s` kept lines, the first of `kept`, to the edits above `e`. -/
def passUp (e kept : Edit α) (s : Nat) (above : List (Edit α)) : List (Edit α) :=
  let moved := kept.lines.take s
  if s = 0 then above
  else
    match above with
    | previous :: rest =>
      if previous.kind = .keep then { previous with lines := previous.lines ++ moved } :: rest
      else ⟨.keep, moved, kept.old, e.new⟩ :: above
    | [] => [⟨.keep, moved, kept.old, e.new⟩]

/-- Moves an edit up, past the edits in `above`, as far as it goes. -/
def moveUp [DecidableEq α] : (above : List (Edit α)) → (this : Edit α) → (below : List (Edit α)) →
    Cursor α
  | [], this, below => ⟨[], this, below⟩
  | previous :: above, this, below =>
    if previous.kind = .keep then
      let s := this.slackUp previous.lines
      let left := previous.lines.take (previous.lines.length - s)
      let below := passDown this previous s below
      let this := this.slideUp previous.lines s
      if left.isEmpty then moveUp above this below
      else ⟨{ previous with lines := left } :: above, this, below⟩
    else if previous.kind = this.kind then
      moveUp above { previous with lines := previous.lines ++ this.lines } below
    else moveUp above this (previous :: below)

/-- Moves an edit down, past the edits in `below`, as far as it goes. -/
def moveDown [DecidableEq α] : (above : List (Edit α)) → (this : Edit α) →
    (below : List (Edit α)) → Cursor α
  | above, this, [] => ⟨above, this, []⟩
  | above, this, next :: below =>
    if next.kind = .keep then
      let s := this.slackDown next.lines
      let left := next.lines.drop s
      let above := passUp this next s above
      let this := this.slideDown next.lines s
      if left.isEmpty then moveDown above this below
      else ⟨above, this, { next with lines := left, old := next.old + s, new := next.new + s } :: below⟩
    else if next.kind = this.kind then
      moveDown above { this with lines := this.lines ++ next.lines } below
    else moveDown (next :: above) this below

/-- Moves an edit up and then down. -/
def settle [DecidableEq α] (c : Cursor α) : Cursor α :=
  let up := moveUp c.above c.this c.below
  moveDown up.above up.this up.below

end Cursor

/-- Settles the next `count` edits of a kind in `below`, one after the other, given the edits above
them, the nearest first. -/
def settleFrom [DecidableEq α] (kind : Kind) : (count : Nat) → (above below : List (Edit α)) →
    List (Edit α)
  | 0, above, below => above.reverse ++ below
  | count + 1, above, below =>
    match below.dropWhile (·.kind ≠ kind) with
    | [] => above.reverse ++ below
    | this :: rest =>
      let passed := below.takeWhile (·.kind ≠ kind)
      let c := Cursor.settle ⟨passed.reverse ++ above, this, rest⟩
      settleFrom kind count (c.this :: c.above) c.below

/-- Settles every edit of a kind. None of them is left over, because settling an edit leaves no more
of its kind below it than there were. -/
def settleAll [DecidableEq α] (kind : Kind) (script : List (Edit α)) : List (Edit α) :=
  settleFrom kind (script.countP (·.kind = kind)) [] script

/-- Settles the deletions of a script, and then its insertions. -/
def settle [DecidableEq α] (script : List (Edit α)) : List (Edit α) :=
  settleAll .insert (settleAll .delete script)

end GoldenHarness.Diff

import GoldenHarness.Diff.Edit

/-!
# Searching for a short edit script

The search is the linear-space form of the greedy algorithm for shortest edit scripts. Two lists
span a grid in which a step right deletes a line, a step down inserts one, and a diagonal step keeps
one. Frontiers grow from both corners of the grid, one more deletion or insertion at a time, along
the diagonals; where they meet, the grid is split in two, and each part is searched in the same way.

Lines that the two lists share at either end are set apart before a part is split, and a part whose
frontiers do not meet within their bound is answered by deleting the one side and inserting the
other. So the script relates the two lists whatever the frontiers do; they only make it short.
-/

namespace GoldenHarness.Diff

variable {α : Type}

/-- A part of the grid: the two lists. -/
structure Grid (α : Type) where
  /-- The old lines. -/
  old : Array α
  /-- The new lines. -/
  new : Array α

/-- How far a search has come from the left edge of the grid, diagonal by diagonal. The diagonals are
numbered from one, which goes through the lower left corner, to the upper right corner. -/
abbrev Frontier := Array Nat

/-- Where two frontiers meet: the point at which the diagonal was entered, and the point that was
reached on it. -/
structure Meeting where
  /-- The distance of the entry from the left edge. -/
  entryOld : Nat
  /-- The distance of the entry from the upper edge. -/
  entryNew : Nat
  /-- The distance of the point that was reached from the left edge. -/
  farOld : Nat
  /-- The distance of the point that was reached from the upper edge. -/
  farNew : Nat
deriving DecidableEq, Repr

namespace Grid

/-- The same part, seen from its far corner. -/
def flip (g : Grid α) : Grid α := ⟨g.old.reverse, g.new.reverse⟩

/-- The diagonal through the corner from which a search starts. -/
@[inline] def origin (g : Grid α) : Nat := g.new.size + 1

/-- The diagonal through the far corner. -/
@[inline] def target (g : Grid α) : Nat := g.old.size + 1

/-- The number that diagonal `c` has for a search from the far corner. -/
@[inline] def opposite (g : Grid α) (c : Nat) : Nat := g.origin + g.target - c

/-- The highest diagonal of round `d`: the one that `d` deletions lead to, or the highest of the grid
that is on every second diagonal with that one. -/
def highest (g : Grid α) (d : Nat) : Nat :=
  if d ≤ g.old.size then g.origin + d else g.origin + g.old.size - (d - g.old.size) % 2

/-- The lowest diagonal of round `d`: the one that `d` insertions lead to, or the lowest of the grid
that is on every second diagonal with that one. -/
def lowest (g : Grid α) (d : Nat) : Nat :=
  if d ≤ g.new.size then g.origin - d else 1 + (d - g.new.size) % 2

/-- Follows the diagonal from a point as long as the lines agree, `fuel` steps at the most, and tells
how far from the left edge that leads. -/
@[specialize] def follow [DecidableEq α] (g : Grid α) : (fuel i j : Nat) → Nat
  | 0, i, _ => i
  | fuel + 1, i, j =>
    if hi : i < g.old.size then
      if hj : j < g.new.size then
        if g.old[i] = g.new[j] then g.follow fuel (i + 1) (j + 1) else i
      else i
    else i

/-- Where round `d` enters diagonal `c`: from the neighbour that has come further, which is the upper
one on the diagonal of `d` insertions and the lower one on the diagonal of `d` deletions. -/
@[inline] def enter (g : Grid α) (f : Frontier) (d c : Nat) : Nat :=
  let upper := f.getD (c + 1) 0
  let lower := f.getD (c - 1) 0
  if c + d = g.origin then upper
  else if c = g.origin + d then lower + 1
  else if lower < upper then upper
  else lower + 1

/-- Whether diagonal `c` is less than `reached` diagonals away from the one through the far corner. -/
@[inline] def isNear (g : Grid α) (reached c : Nat) : Bool :=
  c < g.target + reached ∧ g.target < c + reached

/-- Advances a frontier in round `d` on `left` diagonals, from `c` down to every second one. The search
from the far corner has come as far as `other` tells, on less than `reached` diagonals to either
side. -/
@[specialize] def sweep [DecidableEq α] (g : Grid α) (d reached : Nat) (other : Frontier) :
    (left c : Nat) → Frontier → Meeting ⊕ Frontier
  | 0, _, f => .inr f
  | left + 1, c, f =>
    let x := g.enter f d c
    let y := x + g.origin - c
    let far := g.follow (g.old.size - x) x y
    if g.isNear reached c ∧ g.old.size ≤ far + other.getD (g.opposite c) 0 then
      .inl ⟨x, y, far, y + (far - x)⟩
    else g.sweep d reached other left (c - 2) (f.setIfInBounds c far)

/-- Advances a frontier in round `d` on all its diagonals. -/
@[specialize] def advance [DecidableEq α] (g : Grid α) (d reached : Nat) (other f : Frontier) :
    Meeting ⊕ Frontier :=
  g.sweep d reached other ((g.highest d - g.lowest d) / 2 + 1) (g.highest d) f

/-- Rounds of both frontiers, from round `d` on, until they meet. In a round of the forward search, the
other has advanced one time less often; both are on the same diagonals only if the numbers of lines
differ by an odd number, and for a round of the backward search by an even number. -/
@[specialize] def rounds [DecidableEq α] (g flipped : Grid α) :
    (fuel d : Nat) → (forward backward : Frontier) → Option (Nat × Nat)
  | 0, _, _, _ => none
  | fuel + 1, d, forward, backward =>
    let isOdd := (g.old.size + g.new.size) % 2 = 1
    match g.advance d (if isOdd then d else 0) backward forward with
    | .inl m => some (m.entryOld, m.entryNew)
    | .inr forward =>
      match flipped.advance d (if isOdd then 0 else d + 1) forward backward with
      | .inl m => some (g.old.size - m.farOld, g.new.size - m.farNew)
      | .inr backward => g.rounds flipped fuel (d + 1) forward backward

/-- A point on a shortest way through the grid. Half as many rounds as there are lines suffice for
the frontiers to meet. -/
@[specialize] def middle? [DecidableEq α] (g : Grid α) : Option (Nat × Nat) :=
  let start : Frontier := Array.replicate (g.old.size + g.new.size + 3) 0
  g.rounds g.flip ((g.old.size + g.new.size + 1) / 2 + 1) 0 start start

end Grid

/-- The edit that deletes all of a list, if there is anything to delete. -/
def deleteAll (old : List α) (i j : Nat) : List (Edit α) :=
  if old.isEmpty then [] else [⟨.delete, old, i, j⟩]

/-- The edit that inserts all of a list, if there is anything to insert. -/
def insertAll (new : List α) (i j : Nat) : List (Edit α) :=
  if new.isEmpty then [] else [⟨.insert, new, i, j⟩]

/-- The edit that keeps all of a list, if there is anything to keep. -/
def keepAll (both : List α) (i j : Nat) : List (Edit α) :=
  if both.isEmpty then [] else [⟨.keep, both, i, j⟩]

/-- A script from `old` to `new`, which stand at positions `i` and `j`. -/
@[specialize] def searchFrom [DecidableEq α] : (fuel : Nat) → (old new : List α) → (i j : Nat) → List (Edit α)
  | 0, old, new, i, j => deleteAll old i j ++ insertAll new i j
  | fuel + 1, old, new, i, j =>
    let p := commonPrefix old new
    let oldRest := old.drop p
    let newRest := new.drop p
    let s := commonSuffix oldRest newRest
    let o := oldRest.take (oldRest.length - s)
    let n := newRest.take (newRest.length - s)
    let core :=
      if o.isEmpty ∨ n.isEmpty then deleteAll o (i + p) (j + p) ++ insertAll n (i + p) (j + p)
      else
        match Grid.middle? ⟨o.toArray, n.toArray⟩ with
        | some (x, y) =>
          searchFrom fuel (o.take x) (n.take y) (i + p) (j + p) ++
            searchFrom fuel (o.drop x) (n.drop y) (i + p + x) (j + p + y)
        | none => deleteAll o (i + p) (j + p) ++ insertAll n (i + p) (j + p)
    keepAll (old.take p) i j ++ core ++
      keepAll (oldRest.drop (oldRest.length - s)) (i + p + o.length) (j + p + n.length)

/-- A script from `old` to `new`. Each split leaves two smaller parts, so as many splits below one
another as there are lines are enough. -/
@[specialize] def search [DecidableEq α] (old new : List α) : List (Edit α) :=
  searchFrom (old.length + new.length + 1) old new 0 0

end GoldenHarness.Diff

import GoldenHarness.Diff.Edit

/-!
# Hunks

A diff shows the changed lines and a few unchanged ones around them. Neighbouring deletions and
insertions are read together as one change, and the changes of a script are grouped into hunks: two
changes share a hunk when the lines between them would all be shown anyway.
-/

namespace GoldenHarness.Diff

variable {α : Type}

/-- A stretch of a script: kept lines, or all that is deleted and inserted between kept lines. -/
inductive Stretch (α : Type) where
  /-- Lines that are in both lists. -/
  | kept (lines : List α) (old new : Nat)
  /-- Lines of the old list, and the lines of the new list that stand in their place. -/
  | changed (removed added : List α) (old new : Nat)
deriving DecidableEq, Repr

namespace Stretch

/-- The lines of the old list. -/
def before : Stretch α → List α
  | .kept lines _ _ => lines
  | .changed removed _ _ _ => removed

/-- The lines of the new list. -/
def after : Stretch α → List α
  | .kept lines _ _ => lines
  | .changed _ added _ _ => added

/-- The recorded position in the old list. -/
def old : Stretch α → Nat
  | .kept _ old _ => old
  | .changed _ _ old _ => old

/-- The recorded position in the new list. -/
def new : Stretch α → Nat
  | .kept _ _ new => new
  | .changed _ _ _ new => new

/-- Whether a stretch changes anything. -/
def isChanged : Stretch α → Bool
  | .kept .. => false
  | .changed .. => true

@[simp] theorem before_kept (lines : List α) (old new : Nat) :
    (kept lines old new).before = lines := rfl

@[simp] theorem before_changed (removed added : List α) (old new : Nat) :
    (changed removed added old new).before = removed := rfl

@[simp] theorem after_kept (lines : List α) (old new : Nat) :
    (kept lines old new).after = lines := rfl

@[simp] theorem after_changed (removed added : List α) (old new : Nat) :
    (changed removed added old new).after = added := rfl

@[simp] theorem isChanged_kept (lines : List α) (old new : Nat) :
    (kept lines old new).isChanged = false := rfl

@[simp] theorem isChanged_changed (removed added : List α) (old new : Nat) :
    (changed removed added old new).isChanged = true := rfl

/-- The stretch of one edit. -/
def ofEdit (e : Edit α) : Stretch α :=
  match e.kind with
  | .keep => .kept e.lines e.old e.new
  | .delete => .changed e.lines [] e.old e.new
  | .insert => .changed [] e.lines e.old e.new

/-- Joins two stretches that follow one another, if both keep or both change. The first position is
kept, except that a change takes its old position from its first deletion and its new position from
its first insertion. -/
def join? : Stretch α → Stretch α → Option (Stretch α)
  | .kept l o n, .kept l' _ _ => some (.kept (l ++ l') o n)
  | .changed r a o n, .changed r' a' o' n' =>
    let old := if r.isEmpty ∧ ¬ r'.isEmpty then o' else o
    let new := if a.isEmpty ∧ ¬ a'.isEmpty then n' else n
    some (.changed (r ++ r') (a ++ a') old new)
  | _, _ => none

/-- Puts a stretch before others, joined to the first of them where that is possible. -/
def push (s : Stretch α) : List (Stretch α) → List (Stretch α)
  | [] => [s]
  | t :: rest =>
    match s.join? t with
    | some joined => joined :: rest
    | none => s :: t :: rest

/-- The stretches of a script. -/
def ofScript (script : List (Edit α)) : List (Stretch α) :=
  script.foldr (fun e => push (ofEdit e)) []

/-- The last `n` lines of kept lines. -/
def takeLast (n : Nat) : Stretch α → Stretch α
  | .kept l o w => .kept (l.drop (l.length - n)) (o + (l.length - n)) (w + (l.length - n))
  | s => s

/-- The first `n` lines of kept lines. -/
def takeFirst (n : Nat) : Stretch α → Stretch α
  | .kept l o w => .kept (l.take n) o w
  | s => s

@[simp] theorem takeLast_kept (n : Nat) (l : List α) (o w : Nat) :
    (kept l o w).takeLast n =
      .kept (l.drop (l.length - n)) (o + (l.length - n)) (w + (l.length - n)) := rfl

@[simp] theorem takeFirst_kept (n : Nat) (l : List α) (o w : Nat) :
    (kept l o w).takeFirst n = .kept (l.take n) o w := rfl

end Stretch

/-- A group of stretches that are shown together. -/
abbrev Hunk (α : Type) := List (Stretch α)

namespace Hunk

/-- Whether anything is changed in a hunk. -/
def isChanged (h : Hunk α) : Bool := h.any Stretch.isChanged

/-- Groups stretches into hunks with `radius` kept lines around each change, where `held` holds the
stretches of the hunk being formed, the latest first. Kept lines are cut to the first `radius` where
they end the last hunk, and otherwise cut in two where they are more than two radii long. -/
def groupFrom (radius : Nat) (held : Hunk α) : List (Stretch α) → List (Hunk α)
  | [] => if held.any Stretch.isChanged then [held.reverse] else []
  | .changed r a o n :: rest => groupFrom radius (.changed r a o n :: held) rest
  | .kept l o n :: rest =>
    let s := Stretch.kept l o n
    if rest.isEmpty then groupFrom radius (s.takeFirst radius :: held) rest
    else if 2 * radius < l.length then
      (s.takeFirst radius :: held).reverse :: groupFrom radius [s.takeLast radius] rest
    else groupFrom radius (s :: held) rest

/-- The hunks of a script's stretches: of kept lines before the first change, only the last `radius`
are shown. -/
def group (radius : Nat) : List (Stretch α) → List (Hunk α)
  | .kept l o n :: rest =>
    if rest.isEmpty then [] else groupFrom radius [(Stretch.kept l o n).takeLast radius] rest
  | stretches => groupFrom radius [] stretches

/-- The lines of the old list that a hunk shows. -/
def before (h : Hunk α) : List α := h.flatMap Stretch.before

/-- The lines of the new list that a hunk shows. -/
def after (h : Hunk α) : List α := h.flatMap Stretch.after

/-- The recorded positions at which a hunk begins and ends in the old list. -/
def oldBounds (h : Hunk α) : Nat × Nat :=
  ((h.head?.map Stretch.old).getD 0,
    (h.getLast?.map fun s => s.old + s.before.length).getD 0)

/-- The recorded positions at which a hunk begins and ends in the new list. -/
def newBounds (h : Hunk α) : Nat × Nat :=
  ((h.head?.map Stretch.new).getD 0,
    (h.getLast?.map fun s => s.new + s.after.length).getD 0)

end Hunk

end GoldenHarness.Diff

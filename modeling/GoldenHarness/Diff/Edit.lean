/-!
# Edits

An edit script tells how one list of lines becomes another: it keeps, deletes and inserts runs of
lines, in order. An edit carries its lines, so what a script means needs nothing else: `before` and
`after` read off the two lists that it relates. Each edit also carries the two positions at which it
was recorded. They are what a diff prints in its headers, and nothing checks that they still agree
with the place of the edit once edits have been moved about.
-/

namespace GoldenHarness.Diff

/-- What an edit does with its lines. -/
inductive Kind where
  /-- The lines are in both lists. -/
  | keep
  /-- The lines are in the old list only. -/
  | delete
  /-- The lines are in the new list only. -/
  | insert
deriving DecidableEq, Repr

/-- A run of lines that is kept, deleted or inserted. -/
structure Edit (α : Type) where
  /-- What is done with the lines. -/
  kind : Kind
  /-- The lines. -/
  lines : List α
  /-- The recorded position in the old list. -/
  old : Nat
  /-- The recorded position in the new list. -/
  new : Nat
deriving DecidableEq, Repr

variable {α : Type}

namespace Edit

/-- The lines of the old list that an edit stands for. -/
def before (e : Edit α) : List α :=
  match e.kind with
  | .keep | .delete => e.lines
  | .insert => []

/-- The lines of the new list that an edit stands for. -/
def after (e : Edit α) : List α :=
  match e.kind with
  | .keep | .insert => e.lines
  | .delete => []

/-- Whether an edit changes anything. -/
def isChange (e : Edit α) : Bool := e.kind ≠ .keep

end Edit

/-- The list that a script starts from. -/
def before (script : List (Edit α)) : List α := script.flatMap Edit.before

/-- The list that a script arrives at. -/
def after (script : List (Edit α)) : List α := script.flatMap Edit.after

/-- The number of lines that a script deletes and inserts. -/
def cost : List (Edit α) → Nat
  | [] => 0
  | e :: script => (if e.isChange then e.lines.length else 0) + cost script

/-- The length of the longest common beginning of two lists. -/
def commonPrefix [DecidableEq α] : List α → List α → Nat
  | a :: as, b :: bs => if a = b then commonPrefix as bs + 1 else 0
  | _, _ => 0

/-- The length of the longest common ending of two lists. -/
def commonSuffix [DecidableEq α] (as bs : List α) : Nat :=
  commonPrefix as.reverse bs.reverse

@[simp] theorem before_nil : before ([] : List (Edit α)) = [] := rfl

@[simp] theorem before_cons (e : Edit α) (script : List (Edit α)) :
    before (e :: script) = e.before ++ before script := rfl

@[simp] theorem before_append (s t : List (Edit α)) : before (s ++ t) = before s ++ before t := by
  simp [before]

@[simp] theorem after_nil : after ([] : List (Edit α)) = [] := rfl

@[simp] theorem after_cons (e : Edit α) (script : List (Edit α)) :
    after (e :: script) = e.after ++ after script := rfl

@[simp] theorem after_append (s t : List (Edit α)) : after (s ++ t) = after s ++ after t := by
  simp [after]

theorem commonPrefix_nil_left [DecidableEq α] (bs : List α) : commonPrefix [] bs = 0 := rfl

theorem commonPrefix_nil_right [DecidableEq α] (as : List α) : commonPrefix as [] = 0 := by
  cases as <;> rfl

theorem commonPrefix_cons_cons [DecidableEq α] (a b : α) (as bs : List α) :
    commonPrefix (a :: as) (b :: bs) = if a = b then commonPrefix as bs + 1 else 0 := rfl

/-- The common beginning is a beginning of both lists. -/
theorem take_commonPrefix [DecidableEq α] (as bs : List α) :
    as.take (commonPrefix as bs) = bs.take (commonPrefix as bs) := by
  induction as generalizing bs with
  | nil => rw [commonPrefix_nil_left, List.take_zero, List.take_zero]
  | cons a as ih =>
    cases bs with
    | nil => rw [commonPrefix_nil_right, List.take_zero, List.take_zero]
    | cons b bs =>
      rw [commonPrefix_cons_cons]
      split
      · next h => rw [List.take_succ_cons, List.take_succ_cons, h, ih]
      · rw [List.take_zero, List.take_zero]

/-- The common beginning is no longer than the first list. -/
theorem commonPrefix_le_left [DecidableEq α] (as bs : List α) :
    commonPrefix as bs ≤ as.length := by
  induction as generalizing bs with
  | nil => exact Nat.le_of_eq (commonPrefix_nil_left bs)
  | cons a as ih =>
    cases bs with
    | nil =>
      rw [commonPrefix_nil_right]
      exact Nat.zero_le _
    | cons b bs =>
      rw [commonPrefix_cons_cons]
      split
      · exact Nat.succ_le_succ (ih bs)
      · exact Nat.zero_le _

end GoldenHarness.Diff

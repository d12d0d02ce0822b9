import GoldenHarness.Diff.Edit
import Mathlib.Data.List.Basic

/-!
# Recorded positions

An edit records where it stands in either list. Once edits have been moved about, not all of that is
right: when a deletion and an insertion change places, the old position of the insertion and the new
position of the deletion are out of date. Those are positions in a list of which the edit has no lines.
An edit is in its place if the others are right.
-/

namespace GoldenHarness.Diff

variable {α β : Type}

/-- Every part of a sequence has a property where it stands. A part takes up some length of the old list
and some length of the new one. -/
def Along (old new : β → Nat) (P : Nat → Nat → β → Prop) : (i j : Nat) → List β → Prop
  | _, _, [] => True
  | i, j, b :: rest => P i j b ∧ Along old new P (i + old b) (j + new b) rest

/-- The length that the parts of a sequence take up together. -/
def extent (size : β → Nat) : List β → Nat
  | [] => 0
  | b :: rest => size b + extent size rest

@[simp] theorem extent_nil (size : β → Nat) : extent size [] = 0 := rfl

@[simp] theorem extent_cons (size : β → Nat) (b : β) (rest : List β) :
    extent size (b :: rest) = size b + extent size rest := rfl

theorem extent_length (f : β → List α) (s : List β) :
    extent (fun b => (f b).length) s = (s.flatMap f).length := by
  induction s with
  | nil => rfl
  | cons b s ih => rw [extent_cons, ih, List.flatMap_cons, List.length_append]

section Along

variable {old new : β → Nat} {P : Nat → Nat → β → Prop} {i j : Nat}

@[simp] theorem along_nil : Along old new P i j [] := trivial

@[simp] theorem along_cons {b : β} {rest : List β} :
    Along old new P i j (b :: rest) ↔ P i j b ∧ Along old new P (i + old b) (j + new b) rest :=
  Iff.rfl

theorem along_append {s t : List β} :
    Along old new P i j (s ++ t) ↔
      Along old new P i j s ∧ Along old new P (i + extent old s) (j + extent new s) t := by
  induction s generalizing i j with
  | nil => simp
  | cons b s ih => simp [ih, Nat.add_assoc, and_assoc]

theorem Along.mono {Q : Nat → Nat → β → Prop} {s : List β} (h : Along old new P i j s)
    (hPQ : ∀ b ∈ s, ∀ {i j}, P i j b → Q i j b) : Along old new Q i j s := by
  induction s generalizing i j with
  | nil => trivial
  | cons b s ih =>
    exact ⟨hPQ b List.mem_cons_self h.1, ih h.2 fun c hc => hPQ c (List.mem_cons_of_mem b hc)⟩

/-- What stands at a number in the sequence stands behind all that comes before it. -/
theorem Along.getElem? {s : List β} {k : Nat} {b : β} (h : Along old new P i j s)
    (hk : s[k]? = some b) :
    P (i + extent old (s.take k)) (j + extent new (s.take k)) b := by
  have hlt : k < s.length := (List.getElem?_eq_some_iff.mp hk).1
  have hsplit : s = s.take k ++ b :: s.drop (k + 1) := by
    rw [← (List.getElem?_eq_some_iff.mp hk).2, List.getElem_cons_drop, List.take_append_drop]
  rw [hsplit, along_append] at h
  exact h.2.1

end Along

/-- The positions that an edit records are right, as far as it has lines in that list. -/
def Edit.IsPlaced (i j : Nat) (e : Edit α) : Prop :=
  (e.kind ≠ .insert → e.old = i) ∧ (e.kind ≠ .delete → e.new = j)

/-- Every edit of a script is in its place, where the script stands at positions `i` and `j`. -/
def Placed (i j : Nat) (script : List (Edit α)) : Prop :=
  Along (fun e : Edit α => e.before.length) (fun e => e.after.length) Edit.IsPlaced i j script

section Placed

variable {i j : Nat}

@[simp] theorem placed_nil : Placed i j ([] : List (Edit α)) := trivial

@[simp] theorem placed_cons {e : Edit α} {script : List (Edit α)} :
    Placed i j (e :: script) ↔
      e.IsPlaced i j ∧ Placed (i + e.before.length) (j + e.after.length) script :=
  Iff.rfl

theorem placed_keep_cons {e : Edit α} (h : e.kind = .keep) {script : List (Edit α)} :
    Placed i j (e :: script) ↔
      (e.old = i ∧ e.new = j) ∧ Placed (i + e.lines.length) (j + e.lines.length) script := by
  obtain ⟨kind, lines, old, new⟩ := e
  cases h
  exact and_congr (and_congr (imp_iff_right nofun) (imp_iff_right nofun)) Iff.rfl

theorem placed_insert_cons {e : Edit α} (h : e.kind = .insert) {script : List (Edit α)} :
    Placed i j (e :: script) ↔ e.new = j ∧ Placed i (j + e.lines.length) script := by
  obtain ⟨kind, lines, old, new⟩ := e
  cases h
  have hold : (Kind.insert ≠ .insert → old = i) := fun h => absurd rfl h
  exact and_congr ((and_iff_right hold).trans (imp_iff_right nofun)) Iff.rfl

theorem placed_append {s t : List (Edit α)} :
    Placed i j (s ++ t) ↔
      Placed i j s ∧ Placed (i + (before s).length) (j + (after s).length) t := by
  rw [Placed, along_append, extent_length, extent_length]
  rfl

end Placed

end GoldenHarness.Diff

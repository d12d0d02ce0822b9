import GoldenHarness.Text.Printable
import GoldenHarness.Text.Utf8
import Mathlib.Data.List.Basic

/-!
# How a printed text begins

A text that begins with characters that are kept begins with them when it is printed.
-/

namespace GoldenHarness

theorem prefix_append {cs : List Char} {s : String} (h : cs <+: s.toList) (t : String) :
    cs <+: (s ++ t).toList := by
  rw [String.toList_append]
  exact h.trans (List.prefix_append _ _)

namespace Printable

theorem next_of_isKept {c : Char} (h : isKept c) : next .ground c = .ground := by
  have hescape : c ≠ '\x1b' := by
    rintro rfl
    revert h
    decide
  unfold next
  rw [if_neg hescape]
  split <;> rfl

/-- Characters that are kept are printed before whatever follows them. -/
theorem stripFrom_append {cs : List Char} (h : cs.all isKept) (rest : List Char) :
    stripFrom .ground (cs ++ rest) = cs ++ stripFrom .ground rest := by
  induction cs with
  | nil => rfl
  | cons c cs ih =>
    rw [List.all_cons, Bool.and_eq_true] at h
    rw [List.cons_append, stripFrom, if_pos ⟨rfl, h.1⟩, next_of_isKept h.1, ih h.2, List.cons_append]

theorem prefix_strip {cs : List Char} {text : String} (hkept : cs.all isKept)
    (h : cs <+: text.toList) : cs <+: (strip text).toList := by
  obtain ⟨rest, hrest⟩ := h
  rw [strip, String.toList_ofList, ← hrest, stripFrom_append hkept]
  exact List.prefix_append _ _

end Printable

end GoldenHarness

import GoldenHarness.Journal.Log
import Mathlib.Data.List.Basic

/-!
# What is shown of a journal

A journal is shown entry by entry, and only the times depend on where an entry stands. Without a
filter of its own, a run shows the events of the program down to some level; what the decoder printed
is passed on in any case.
-/

namespace GoldenHarness.Journal

/-! ## Entry by entry -/

section Entries

variable (f : Filter) (clock : Clock)

end Entries

/-- What the decoder printed is passed on. -/
def Entry.passedOn : Entry → Bytes
  | .event _ => []
  | .tool bytes => bytes

/-- A journal of events that no run shows without being asked to. -/
def IsCalm (journal : List Entry) : Prop := ∀ e, .event e ∈ journal → 2 < e.level.rank

@[simp] theorem isCalm_event_cons {e : Event} {rest : List Entry} :
    IsCalm (.event e :: rest) ↔ 2 < e.level.rank ∧ IsCalm rest := by
  unfold IsCalm
  simp

/-- Whether an event tells of a transient file. -/
def Event.isAboutTransient : Event → Bool
  | createdTransient .. | removedTransient .. | keptTransient .. => true
  | _ => false

/-- A journal that says nothing of a transient file. -/
def IsSilent (journal : List Entry) : Prop := ∀ e, .event e ∈ journal → ¬ e.isAboutTransient

@[simp] theorem isSilent_event_cons {e : Event} {rest : List Entry} :
    IsSilent (.event e :: rest) ↔ ¬ e.isAboutTransient ∧ IsSilent rest := by
  unfold IsSilent
  simp

@[simp] theorem isSilent_tool_cons {bytes : Bytes} {rest : List Entry} :
    IsSilent (.tool bytes :: rest) ↔ IsSilent rest := by
  unfold IsSilent
  simp

end GoldenHarness.Journal

import GoldenHarness.Text.Utf8

/-!
# Writers

A writer takes bytes, and may have room for so many only. A write that does not fit fails, but takes
what there is room for.
-/

namespace GoldenHarness

/-- A writer, with what it has taken. -/
structure Writer where
  /-- How many bytes it takes in all, if there is an end to it. -/
  limit : Option Nat
  /-- The bytes it has taken. -/
  written : Bytes
deriving DecidableEq, Repr

namespace Writer

/-- A writer that has taken nothing. -/
def empty (limit : Option Nat) : Writer := ⟨limit, []⟩

/-- Whether there is room for some bytes. -/
def accepts (w : Writer) (bs : Bytes) : Bool :=
  w.limit.all fun limit => w.written.length + bs.length ≤ limit

/-- The part of some bytes that there is room for. -/
def fitting (w : Writer) (bs : Bytes) : Bytes :=
  match w.limit with
  | none => bs
  | some limit => bs.take (limit - w.written.length)

/-- Takes bytes as far as there is room. -/
def write (w : Writer) (bs : Bytes) : Writer := { w with written := w.written ++ w.fitting bs }

/-- What there is room for is a beginning of what is offered. -/
theorem fitting_prefix (w : Writer) (bs : Bytes) : w.fitting bs <+: bs := by
  unfold fitting
  split
  · exact List.prefix_refl bs
  · exact List.take_prefix _ bs

/-- Where there is room, all that is offered fits. -/
theorem fitting_of_accepts {w : Writer} {bs : Bytes} (h : w.accepts bs) : w.fitting bs = bs := by
  unfold accepts at h
  unfold fitting
  split
  · rfl
  · next limit hlimit =>
    simp only [hlimit, Option.all_some, decide_eq_true_eq] at h
    exact List.take_of_length_le (by omega)

/-- Where there is room, a write adds all that is offered. -/
theorem written_write {w : Writer} {bs : Bytes} (h : w.accepts bs) :
    (w.write bs).written = w.written ++ bs := by
  simp [write, fitting_of_accepts h]

/-- A write changes no limit. -/
@[simp] theorem limit_write (w : Writer) (bs : Bytes) : (w.write bs).limit = w.limit := rfl

end Writer

end GoldenHarness

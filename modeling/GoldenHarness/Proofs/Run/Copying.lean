import GoldenHarness.Run.Basic
import Mathlib.Logic.Basic

/-!
# Copying an output into two writers

What each writer holds after a copy, and when the copy is complete, depends on the whole output and
on the room in the writers, but not on the pieces in which the output is read.
-/

namespace GoldenHarness

namespace Writer

@[simp] theorem written_empty (limit : Option Nat) : (empty limit).written = [] := rfl

/-- There is room for some bytes if they do not take the writer over its limit. -/
theorem accepts_iff {w : Writer} {bs : Bytes} :
    w.accepts bs ↔ ∀ n ∈ w.limit, w.written.length + bs.length ≤ n := by
  unfold accepts
  cases w.limit <;> simp

/-- A writer without a limit has room for everything. -/
@[simp] theorem accepts_empty_none (bs : Bytes) : (empty none).accepts bs := rfl

/-- A writer that has taken nothing has room for as many bytes as its limit tells. -/
theorem accepts_empty_iff {limit : Option Nat} {bs : Bytes} :
    (empty limit).accepts bs ↔ ∀ n ∈ limit, bs.length ≤ n := by
  rw [accepts_iff, written_empty, List.length_nil]
  simp only [Nat.zero_add]
  rfl

/-- A writer that has taken nothing has room for nothing more, whatever its limit. -/
@[simp] theorem accepts_empty_nil (limit : Option Nat) : (empty limit).accepts [] := by
  rw [accepts_empty_iff]
  exact fun n _ => Nat.zero_le n

@[simp] theorem fitting_nil (w : Writer) : w.fitting [] = [] :=
  List.prefix_nil.mp (w.fitting_prefix [])

@[simp] theorem write_nil (w : Writer) : w.write [] = w := by
  simp [write]

/-- There is room for two pieces if there is room for the first, and then for the second. -/
theorem accepts_append (w : Writer) (as bs : Bytes) :
    w.accepts (as ++ bs) ↔ w.accepts as ∧ (w.write as).accepts bs := by
  constructor
  · intro h
    have has : w.accepts as := by
      rw [accepts_iff] at h ⊢
      intro n hn
      have := h n hn
      rw [List.length_append] at this
      omega
    refine ⟨has, ?_⟩
    rw [accepts_iff] at h ⊢
    rwa [limit_write, written_write has, List.length_append, Nat.add_assoc, ← List.length_append]
  · rintro ⟨has, hbs⟩
    rw [accepts_iff] at hbs ⊢
    rwa [limit_write, written_write has, List.length_append, Nat.add_assoc, ← List.length_append] at hbs

/-- Two pieces that there is room for may as well be written at once. -/
theorem write_write {w : Writer} {as bs : Bytes} (h : w.accepts (as ++ bs)) :
    (w.write as).write bs = w.write (as ++ bs) := by
  have ⟨has, hbs⟩ := (w.accepts_append as bs).mp h
  have hw : ((w.write as).write bs).written = (w.write (as ++ bs)).written := by
    rw [written_write hbs, written_write has, written_write h, List.append_assoc]
  exact congrArg (Writer.mk w.limit) hw

end Writer

namespace ToolRun

/-- The files and directories that a decoder leaves when it has ended. -/
def filesLeft (r : ToolRun) (fs : FileSystem) : FileSystem := { fs with entries := r.entries }

/-- The files and directories that a decoder leaves when it is stopped after `n` pieces were read. -/
def filesLeftIfStopped (r : ToolRun) (n : Nat) (fs : FileSystem) : FileSystem :=
  { fs with entries := r.entriesIfStopped n }

end ToolRun

namespace Run

/-! ## Copying -/

theorem copyFrom_nil (reads : Nat) (echo sink : Writer) :
    copyFrom reads [] echo sink = ⟨echo, sink, reads, true⟩ := rfl

theorem copyFrom_cons (reads : Nat) (piece : Bytes) (rest : List Bytes) (echo sink : Writer) :
    copyFrom reads (piece :: rest) echo sink =
      if ¬ echo.accepts piece then ⟨echo.write piece, sink, reads + 1, false⟩
      else if ¬ sink.accepts piece then ⟨echo.write piece, sink.write piece, reads + 1, false⟩
      else copyFrom (reads + 1) rest (echo.write piece) (sink.write piece) := rfl

/-- Where both writers have room for all of an output, both get all of it. -/
theorem copyFrom_of_accepts {pieces : List Bytes} {reads : Nat} {echo sink : Writer}
    (hecho : echo.accepts pieces.flatten) (hsink : sink.accepts pieces.flatten) :
    copyFrom reads pieces echo sink =
      ⟨echo.write pieces.flatten, sink.write pieces.flatten, reads + pieces.length, true⟩ := by
  induction pieces generalizing reads echo sink with
  | nil =>
    rw [copyFrom_nil, List.flatten_nil, Writer.write_nil, Writer.write_nil, List.length_nil,
      Nat.add_zero]
  | cons piece rest ih =>
    rw [List.flatten_cons] at hecho hsink
    have ⟨he, herest⟩ := (echo.accepts_append piece rest.flatten).mp hecho
    have ⟨hs, hsrest⟩ := (sink.accepts_append piece rest.flatten).mp hsink
    rw [copyFrom_cons, if_neg (not_not.mpr he), if_neg (not_not.mpr hs), ih herest hsrest,
      Writer.write_write hecho, Writer.write_write hsink, List.length_cons, List.flatten_cons,
      Nat.add_assoc, Nat.add_comm 1]

/-- A copy that is complete has found room for all of the output in both writers. -/
theorem accepts_of_copyFrom {pieces : List Bytes} {reads : Nat} {echo sink : Writer}
    (hecho : echo.accepts []) (hsink : sink.accepts [])
    (h : (copyFrom reads pieces echo sink).isComplete) :
    echo.accepts pieces.flatten ∧ sink.accepts pieces.flatten := by
  induction pieces generalizing reads echo sink with
  | nil => exact ⟨hecho, hsink⟩
  | cons piece rest ih =>
    rw [copyFrom_cons] at h
    split at h
    · simp at h
    · next he =>
      split at h
      · simp at h
      · next hs =>
        rw [not_not] at he hs
        -- a writer that has just had room for a piece has room for no bytes at all
        have hroom (w : Writer) (hw : w.accepts piece) : (w.write piece).accepts [] := by
          have := (w.accepts_append piece []).mp (by rwa [List.append_nil])
          exact this.2
        obtain ⟨herest, hsrest⟩ := ih (hroom echo he) (hroom sink hs) h
        rw [List.flatten_cons]
        exact ⟨(echo.accepts_append _ _).mpr ⟨he, herest⟩, (sink.accepts_append _ _).mpr ⟨hs, hsrest⟩⟩

/-- A copy into writers that hold nothing is complete if and only if both have room for the output. -/
theorem copy_isComplete_iff (pieces : List Bytes) (echoLimit sinkLimit : Option Nat) :
    (copy pieces (.empty echoLimit) (.empty sinkLimit)).isComplete ↔
      (Writer.empty echoLimit).accepts pieces.flatten ∧
        (Writer.empty sinkLimit).accepts pieces.flatten := by
  constructor
  · exact accepts_of_copyFrom (Writer.accepts_empty_nil _) (Writer.accepts_empty_nil _)
  · rintro ⟨hecho, hsink⟩
    rw [copy, copyFrom_of_accepts hecho hsink]

/-! ## Running the decoder -/

variable {m : Machine} {fs : FileSystem} {command : Path} {args : List Bytes}

/-- A decoder that cannot be started prints nothing and changes nothing. -/
theorem tee_of_find_error {cause : Failure} (h : m.find fs command args = .error cause)
    (echo sink : Writer) :
    (tee m fs command args echo sink).result = .error (.spawn command cause) ∧
      (tee m fs command args echo sink).echo = echo ∧
      (tee m fs command args echo sink).sink = sink ∧
      (tee m fs command args echo sink).files = fs := by
  unfold tee
  rw [h]
  exact ⟨rfl, rfl, rfl, rfl⟩

/-- The writers hold what was copied, and the decoder ends as it will only if that is all of its
output. -/
theorem tee_of_find {program : Program} (h : m.find fs command args = .ok program)
    (echo sink : Writer) :
    let run := program args fs
    let copied := copy run.reads echo sink
    let teed := tee m fs command args echo sink
    teed.result = (if copied.isComplete then .ok run.status else .error writerFull) ∧
      teed.echo = copied.echo ∧ teed.sink = copied.sink ∧
      teed.files = if copied.isComplete then run.filesLeft fs
        else run.filesLeftIfStopped copied.reads fs := by
  intro run copied teed
  simp only [teed]
  unfold tee
  rw [h]
  dsimp only
  split <;> exact ⟨rfl, rfl, rfl, rfl⟩

/-- Where both writers have room for all that a decoder prints, both get it, and the decoder ends as
it will. -/
theorem tee_of_accepts {program : Program} (h : m.find fs command args = .ok program)
    {echo sink : Writer} (hecho : echo.accepts (program args fs).output)
    (hsink : sink.accepts (program args fs).output) :
    (tee m fs command args echo sink).result = .ok (program args fs).status ∧
      (tee m fs command args echo sink).echo = echo.write (program args fs).output ∧
      (tee m fs command args echo sink).sink = sink.write (program args fs).output ∧
      (tee m fs command args echo sink).files = (program args fs).filesLeft fs := by
  have hcopy : copy (program args fs).reads echo sink = _ := copyFrom_of_accepts hecho hsink
  obtain ⟨hresult, hechoed, hsunk, hfiles⟩ := tee_of_find h echo sink
  rw [hcopy] at hresult hechoed hsunk hfiles
  exact ⟨hresult, hechoed, hsunk, hfiles⟩

end Run

end GoldenHarness

import GoldenHarness.Proofs.Run.Copying
import GoldenHarness.Run.Generate

/-!
# The stages of a generation

A generation starts the decoder, writes what it printed to the golden file, and echoes that. The first
stage that fails settles the result; the golden file is written as soon as the first two have not
failed, and the echo cannot undo that.
-/

namespace GoldenHarness.Run

variable {m : Machine} {fs : FileSystem} {c : Config} {program : Program}

/-- A decoder whose output is collected is not stopped, since there is room for all of it. -/
theorem capture_of_find (hfind : m.find fs c.tool c.toolArgs = .ok program) :
    (capture m fs c).result = .ok (program c.toolArgs fs).status ∧
      (capture m fs c).sink.written = (program c.toolArgs fs).output ∧
      (capture m fs c).files = (program c.toolArgs fs).filesLeft fs := by
  obtain ⟨hresult, -, hsink, hfiles⟩ := tee_of_accepts hfind
    (Writer.accepts_empty_none (program c.toolArgs fs).output) (Writer.accepts_empty_none _)
  refine ⟨hresult, ?_, hfiles⟩
  rw [capture, hsink, Writer.written_write (Writer.accepts_empty_none _)]
  rfl

/-- A decoder that cannot be started leaves the files and the echo as they are. -/
theorem generate_of_find_error {cause : Failure}
    (hfind : m.find fs c.tool c.toolArgs = .error cause) (echo : Writer) :
    (generate m fs c echo).result = .error (.spawn c.tool cause) ∧
      (generate m fs c echo).echo = echo ∧ (generate m fs c echo).files = fs := by
  obtain ⟨hresult, -, -, hfiles⟩ := tee_of_find_error hfind (.empty none) (.empty none)
  have hspawn : (capture m fs c).result = .error (.spawn c.tool cause) := hresult
  unfold generate
  simp only [hspawn]
  exact ⟨trivial, trivial, hfiles⟩

/-- A golden file that cannot be written leaves the files as the decoder left them. -/
theorem generate_of_write_error {cause : Failure}
    (hfind : m.find fs c.tool c.toolArgs = .ok program)
    (hwrite : ((program c.toolArgs fs).filesLeft fs).write c.golden (program c.toolArgs fs).output =
      .error cause) (echo : Writer) :
    (generate m fs c echo).result = .error (.goldenWrite c.golden cause) ∧
      (generate m fs c echo).echo = echo ∧
      (generate m fs c echo).files = (program c.toolArgs fs).filesLeft fs := by
  obtain ⟨hstatus, hwritten, hleft⟩ := capture_of_find hfind
  unfold generate
  simp only [hstatus, hwritten, hleft, hwrite, and_self]

/-- Once the golden file is written, only the echo can fail. -/
theorem generate_of_write {files : FileSystem}
    (hfind : m.find fs c.tool c.toolArgs = .ok program)
    (hwrite : ((program c.toolArgs fs).filesLeft fs).write c.golden (program c.toolArgs fs).output =
      .ok files) (echo : Writer) :
    let run := program c.toolArgs fs
    let shown := Report.bracketed run.output
    (generate m fs c echo).result =
        (if echo.accepts shown then .ok ⟨run.output.length, run.status⟩ else .error writerFull) ∧
      (generate m fs c echo).echo = echo.write shown ∧ (generate m fs c echo).files = files := by
  obtain ⟨hstatus, hwritten, hleft⟩ := capture_of_find hfind
  unfold generate
  simp only [hstatus, hwritten, hleft, hwrite, and_self]

end GoldenHarness.Run

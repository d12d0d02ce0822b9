import GoldenHarness.Report
import GoldenHarness.Run.Basic

/-!
# Writing the golden file

The decoder runs to its end, what it printed becomes the golden file, and only then it is echoed. The
decoder is trusted: if it fails, that is noted, and what it printed becomes the golden file all the
same.
-/

namespace GoldenHarness.Run

/-- What came of writing a golden file. -/
structure Generated where
  /-- The number of bytes in the golden file. -/
  bytes : Nat
  /-- How the decoder ended. -/
  status : ExitStatus
deriving DecidableEq, Repr

/-- Writes the golden file of a configuration, and echoes it between separator lines. -/
def generate (m : Machine) (fs : FileSystem) (c : Config) (echo : Writer) : Execution Generated :=
  let captured := capture m fs c
  match captured.result with
  | .error e => { result := .error e, echo, files := captured.files, journal := captured.journal }
  | .ok status =>
    let output := captured.sink.written
    let noted := if status.isSuccess then [] else [.event (.failedGenerating status)]
    let journal := captured.journal ++ noted
    match captured.files.write c.golden output with
    | .error cause =>
      { result := .error (.goldenWrite c.golden cause), echo, files := captured.files, journal }
    | .ok files =>
      let shown := Report.bracketed output
      { result := if echo.accepts shown then .ok ⟨output.length, status⟩ else .error writerFull
        echo := echo.write shown
        files
        journal := journal ++ [.event (.wroteGolden c.golden output.length)] }

end GoldenHarness.Run

import GoldenHarness.Diff.Unified
import GoldenHarness.Report
import GoldenHarness.Run.Basic
import GoldenHarness.Transient.Basic

/-!
# Comparing with the golden file

The decoder's output is echoed and written to a transient file, which is compared with the golden
file once the decoder has ended. The transient file is closed last, whatever happened before, so no
path through a comparison leaves it behind.
-/

namespace GoldenHarness.Run

/-- Compares a golden file with a transient file. -/
def verdict (fs : FileSystem) (golden : Path) (t : Transient) : Except RunError Outcome :=
  match fs.read golden with
  | .error cause => .error (.goldenRead golden cause)
  | .ok expected =>
    match t.read fs with
    | .error cause => .error (.io (.ofFailure cause))
    | .ok actual =>
      match Diff.golden expected actual (Path.display golden) (Path.display t.path) with
      | none => .ok .passed
      | some diff => .ok (.mismatch diff)

/-- What is noted about a verdict. -/
def noteOf : Except RunError Outcome → List Journal.Entry
  | .ok outcome => [.event (.compared outcome.isPass)]
  | .error _ => []

/-- Runs the decoder into a transient file, and compares that with the golden file if the decoder ended
well. -/
def judge (m : Machine) (fs : FileSystem) (c : Config) (echo : Writer) (t : Transient) :
    Execution Outcome :=
  let teed := tee m fs c.tool c.toolArgs echo (.empty none)
  let files := t.append teed.files teed.sink.written
  match teed.result with
  | .error e => { result := .error e, echo := teed.echo, files, journal := teed.journal }
  | .ok status =>
    if status.isSuccess then
      let result := verdict files c.golden t
      { result, echo := teed.echo, files, journal := teed.journal ++ noteOf result }
    else
      { result := .ok (.toolFailed status.code?)
        echo := teed.echo
        files
        journal := teed.journal ++ [.event (.toolFailed status)] }

/-- Closes a transient file: the files and directories afterwards, and what is noted. -/
def close (fs : FileSystem) (t : Transient) : FileSystem × Journal.Event :=
  match t.remove fs with
  | .ok files => (files, .removedTransient t.path)
  | .error e => (fs, .keptTransient t.path e)

/-- Compares the decoder's output with the golden file of a configuration, and echoes it. The name of
the transient file is drawn from `names`. -/
def compare (m : Machine) (fs : FileSystem) (c : Config) (echo : Writer) (names : NameSource) :
    Execution Outcome :=
  match Transient.create fs c.scratchDir c.label names with
  | .error e => { result := .error (.io e), echo, files := fs, journal := [] }
  | .ok created =>
    let judged := judge m created.files c echo created.transient
    let (files, closed) := close judged.files created.transient
    { judged with
      files
      journal :=
        .event (.createdTransient created.transient.path) :: judged.journal ++ [.event closed] }

end GoldenHarness.Run

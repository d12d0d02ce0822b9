import GoldenHarness.Journal.Event
import GoldenHarness.Run.Error
import GoldenHarness.Writer

/-!
# Running the decoder

The decoder is started with its arguments, and its output is copied into two writers as it arrives:
each piece first into the echo, which the user sees, and then into the sink. A writer that takes no
more stops the decoder. How the decoder ended is told as it is, and is no error.
-/

namespace GoldenHarness

/-- What came of an action. -/
structure Execution (α : Type) where
  /-- The result, or why there is none. -/
  result : Except RunError α
  /-- The echo, with what was written to it. -/
  echo : Writer
  /-- The files and directories afterwards. -/
  files : FileSystem
  /-- What was written to the error output meanwhile. -/
  journal : List Journal.Entry

namespace Run

/-- The error of a writer that takes no more. -/
def writerFull : RunError := .io (.ofFailure .writerFull)

/-- An output that was copied into two writers. -/
structure Copied where
  /-- The writer that gets each piece first. -/
  echo : Writer
  /-- The writer that gets each piece second. -/
  sink : Writer
  /-- How many pieces were read. -/
  reads : Nat
  /-- Whether both writers had room for all of it. -/
  isComplete : Bool
deriving DecidableEq, Repr

/-- Copies pieces, of which `reads` were read before, until a writer has no room for one. -/
def copyFrom (reads : Nat) : List Bytes → (echo sink : Writer) → Copied
  | [], echo, sink => ⟨echo, sink, reads, true⟩
  | piece :: rest, echo, sink =>
    if ¬ echo.accepts piece then ⟨echo.write piece, sink, reads + 1, false⟩
    else if ¬ sink.accepts piece then ⟨echo.write piece, sink.write piece, reads + 1, false⟩
    else copyFrom (reads + 1) rest (echo.write piece) (sink.write piece)

/-- Copies the pieces of an output into two writers. -/
def copy (pieces : List Bytes) (echo sink : Writer) : Copied := copyFrom 0 pieces echo sink

/-- What came of running the decoder with its output copied into two writers. -/
structure Teed extends Execution ExitStatus where
  /-- The sink, with what was written to it. -/
  sink : Writer

/-- Runs a program with its output copied into two writers. -/
def tee (m : Machine) (fs : FileSystem) (command : Path) (args : List Bytes)
    (echo sink : Writer) : Teed :=
  let spawning := .event (.spawning command args)
  match m.find fs command args with
  | .error cause =>
    { result := .error (.spawn command cause), echo, sink, files := fs, journal := [spawning] }
  | .ok program =>
    let run := program args fs
    let copied := copy run.reads echo sink
    let finished := .event (.finished run.output.length run.status)
    if copied.isComplete then
      { result := .ok run.status
        echo := copied.echo
        sink := copied.sink
        files := { fs with entries := run.entries }
        journal := [spawning, .tool run.errorOutput, finished] }
    else
      { result := .error writerFull
        echo := copied.echo
        sink := copied.sink
        files := { fs with entries := run.entriesIfStopped copied.reads }
        journal := [spawning, .tool run.errorOutput] }

/-- Runs the decoder of a configuration with its output collected. Nothing is echoed. -/
def capture (m : Machine) (fs : FileSystem) (c : Config) : Teed :=
  tee m fs c.tool c.toolArgs (.empty none) (.empty none)

end Run

end GoldenHarness

import GoldenHarness.Run.Compare
import GoldenHarness.Run.Generate

/-!
# Sessions

A session is a sequence of steps on the same files. Each step is an action with a configuration of its
own, and with writers that may have room for so much only.
-/

namespace GoldenHarness.Run

/-- What may be done with a configuration. The numbers limit the writers. -/
inductive Action where
  /-- Writes the golden file. -/
  | generate (echoLimit : Option Nat)
  /-- Compares with the golden file. -/
  | compare (echoLimit : Option Nat)
  /-- Runs the decoder and collects its output. -/
  | capture
  /-- Runs the decoder and copies its output into two writers. -/
  | tee (echoLimit sinkLimit : Option Nat)
deriving DecidableEq, Repr

/-- What an action answers. -/
inductive Answer where
  /-- The golden file was written, or not. -/
  | generated (result : Except RunError Generated)
  /-- The output was compared, or not. -/
  | compared (result : Except RunError Outcome)
  /-- The output was collected, or not. -/
  | captured (result : Except RunError (Bytes × ExitStatus))
  /-- The output was copied, or not; either way the sink holds some bytes. -/
  | teed (result : Except RunError ExitStatus) (sink : Bytes)

/-- What came of an action of a session. -/
structure Performed where
  /-- The answer. -/
  answer : Answer
  /-- What was echoed. -/
  echo : Bytes
  /-- The files and directories afterwards. -/
  files : FileSystem

/-- Performs an action with a configuration. -/
def perform (m : Machine) (names : NameSource) (fs : FileSystem) (c : Config) : Action → Performed
  | .generate echoLimit =>
    let done := generate m fs c (.empty echoLimit)
    ⟨.generated done.result, done.echo.written, done.files⟩
  | .compare echoLimit =>
    let done := compare m fs c (.empty echoLimit) names
    ⟨.compared done.result, done.echo.written, done.files⟩
  | .capture =>
    let done := capture m fs c
    ⟨.captured (done.result.map fun status => (done.sink.written, status)), [], done.files⟩
  | .tee echoLimit sinkLimit =>
    let done := tee m fs c.tool c.toolArgs (.empty echoLimit) (.empty sinkLimit)
    ⟨.teed done.result done.sink.written, done.echo.written, done.files⟩

/-- A step of a session. The machine and the names of transient files are those of the step, since a
decoder may do something else the next time, and names are drawn anew. -/
structure Step where
  /-- What the decoder runs on. -/
  machine : Machine
  /-- Where the names of transient files are drawn from. -/
  names : NameSource
  /-- The configuration. -/
  config : Config
  /-- What is done. -/
  action : Action

/-- Performs a step. -/
def Step.perform (s : Step) (fs : FileSystem) : Performed :=
  Run.perform s.machine s.names fs s.config s.action

/-- The files and directories after a sequence of steps. -/
def filesAfter (fs : FileSystem) (steps : List Step) : FileSystem :=
  steps.foldl (fun fs step => (step.perform fs).files) fs

end GoldenHarness.Run

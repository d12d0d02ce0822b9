import GoldenHarness.Tool.Basic

/-!
# Events

What a run has to say about itself while it goes on. An event has a level, belongs to a part of the
program, and is shown on one line: a message, and then fields with their values.
-/

namespace GoldenHarness.Journal

/-- How important an event is; the less important, the greater. -/
inductive Level where
  /-- Something failed. -/
  | error
  /-- Something is not as it should be. -/
  | warn
  /-- Something happened that a user may want to know. -/
  | info
  /-- Something happened that helps to find faults. -/
  | debug
  /-- Everything. -/
  | trace
deriving DecidableEq, Repr

namespace Level

/-- The place of a level in the order, from one. -/
def rank : Level → Nat
  | error => 1
  | warn => 2
  | info => 3
  | debug => 4
  | trace => 5

/-- The name of a level. -/
def name : Level → String
  | error => "ERROR"
  | warn => "WARN"
  | info => "INFO"
  | debug => "DEBUG"
  | trace => "TRACE"

end Level

/-- An event. -/
inductive Event where
  /-- The transient file was created. -/
  | createdTransient (path : Path)
  /-- The transient file was removed. -/
  | removedTransient (path : Path)
  /-- The transient file could not be removed. -/
  | keptTransient (path : Path) (error : IoError)
  /-- The decoder is about to be started. -/
  | spawning (program : Path) (args : List Bytes)
  /-- The decoder has ended, and all of its output has been read. -/
  | finished (bytes : Nat) (status : ExitStatus)
  /-- The decoder failed, so there is nothing to compare. -/
  | toolFailed (status : ExitStatus)
  /-- The outputs were compared. -/
  | compared (pass : Bool)
  /-- The decoder failed, and its output becomes the expected one all the same. -/
  | failedGenerating (status : ExitStatus)
  /-- The golden file was written. -/
  | wroteGolden (path : Path) (bytes : Nat)
deriving DecidableEq, Repr

namespace Event

/-- The level of an event. -/
def level : Event → Level
  | keptTransient .. => .warn
  | failedGenerating .. | wroteGolden .. => .info
  | _ => .debug

/-- The part of the program that an event belongs to. -/
def target : Event → String
  | createdTransient .. | removedTransient .. | keptTransient .. => "trace_golden::transient"
  | spawning .. | finished .. => "trace_golden::tool"
  | _ => "trace_golden::runner"

/-- The message of an event. -/
def message : Event → String
  | createdTransient .. => "created transient output"
  | removedTransient .. => "removed transient output"
  | keptTransient .. => "failed to remove transient output"
  | spawning .. => "spawning trace tool"
  | finished .. => "trace tool finished"
  | toolFailed .. => "trace tool failed"
  | compared .. => "comparison finished"
  | failedGenerating .. => "trace tool exited unsuccessfully while generating"
  | wroteGolden .. => "wrote golden file"

/-- The fields of an event, with their values. -/
def fields : Event → List (String × String)
  | createdTransient path | removedTransient path => [("path", Path.display path)]
  | keptTransient path e => [("path", Path.display path), ("error", e.message)]
  | spawning program args => [("program", Path.display program), ("args", Quoted.list args)]
  | finished bytes status => [("bytes", s!"{bytes}"), ("status", status.message)]
  | toolFailed status | failedGenerating status => [("status", status.message)]
  | compared pass => [("pass", s!"{pass}")]
  | wroteGolden path bytes => [("path", Path.display path), ("bytes", s!"{bytes}")]

/-- The line of an event, after the time at which it happened. -/
def line (time : String) (e : Event) : String :=
  let level := e.level.name
  let pad := String.ofList (List.replicate (5 - level.length) ' ')
  let fields := e.fields.map fun (name, value) => s!" {name}={value}"
  s!"{time} {pad}{level} {e.message}" ++ "".intercalate fields ++ "\n"

end Event

/-- What is written to the error output in the course of a run. -/
inductive Entry where
  /-- An event of the run. -/
  | event (e : Event)
  /-- What the decoder printed to its error output. -/
  | tool (bytes : Bytes)
deriving DecidableEq, Repr

end GoldenHarness.Journal

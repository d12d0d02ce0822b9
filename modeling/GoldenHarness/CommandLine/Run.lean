import GoldenHarness.CommandLine.Message
import GoldenHarness.CommandLine.Parse
import GoldenHarness.Config.Resolve
import GoldenHarness.Journal.Log
import GoldenHarness.Run.Compare
import GoldenHarness.Run.Generate

/-!
# A run of the program

From the words of the command line and the environment to the output, the error output, the exit code
and the files. What a run does and what it has to say about it are kept apart: `act` knows nothing of
the filter that chooses the events to be shown.
-/

namespace GoldenHarness.CommandLine

/-- What came of a run whose command line was accepted. -/
structure Conclusion where
  /-- How the run ends. -/
  exitCode : ExitCode
  /-- The output. -/
  output : Bytes
  /-- What was written to the error output in the course of the run. -/
  journal : List Journal.Entry
  /-- The notice at the end of the error output, if there is one. -/
  notice : Option (Report.Notice × String)
  /-- The files and directories afterwards. -/
  files : FileSystem

/-- What an error comes to. -/
def failed (e : RunError) (output : Bytes) (journal : List Journal.Entry) (files : FileSystem) :
    Conclusion :=
  ⟨.failure, output, journal, some (.error, e.message), files⟩

/-- Writes the golden file of a configuration. A decoder that fails calls for a warning. -/
def actGenerate (m : Machine) (fs : FileSystem) (c : Config) : Conclusion :=
  let done := Run.generate m fs c (.empty none)
  match done.result with
  | .error e => failed e done.echo.written done.journal done.files
  | .ok generated =>
    let warning :=
      s!"trace tool exited with {generated.status.message}; golden file written anyway"
    { exitCode := .success
      output := done.echo.written
      journal := done.journal
      notice := if generated.status.isSuccess then none else some (.warning, warning)
      files := done.files }

/-- Compares with the golden file of a configuration. The outcome follows the echo. -/
def actCompare (m : Machine) (fs : FileSystem) (c : Config) (names : NameSource) : Conclusion :=
  let done := Run.compare m fs c (.empty none) names
  match done.result with
  | .error e => failed e done.echo.written done.journal done.files
  | .ok outcome =>
    { exitCode := outcome.exitCode
      output := done.echo.written ++ Bytes.ofString (Report.renderOutcome c.label outcome)
      journal := done.journal
      notice := none
      files := done.files }

/-- Does what a command line asks for. -/
def act (m : Machine) (fs : FileSystem) (s : Settings) (names : NameSource) : Conclusion :=
  match Config.resolve fs s with
  | .error e => failed (.config e) [] [] fs
  | .ok c => if s.generate then actGenerate m fs c else actCompare m fs c names

/-- A call of the program. -/
structure Call where
  /-- The word by which the program was called, if there is one. -/
  called : Option Bytes
  /-- The words after that. -/
  words : List Bytes
  /-- The environment. -/
  environment : Environment
deriving DecidableEq, Repr

namespace Call

/-- The environment variable that says which events are shown. -/
def filterVariable : String := "RUST_LOG"

/-- What a call comes to, before anything is run. -/
def invocation (c : Call) : Invocation := parse c.words c.environment

/-- The filter of a call with some verbosity. -/
def filter (c : Call) (verbosity : Nat) : Journal.Filter :=
  Journal.Filter.choose (c.environment.lookup filterVariable) verbosity

end Call

/-- What the caller of the program sees. -/
structure Seen where
  /-- How the run ended. -/
  exitCode : ExitCode
  /-- The output. -/
  output : Bytes
  /-- The error output. -/
  errorOutput : Bytes
  /-- The files and directories afterwards. -/
  files : FileSystem
deriving DecidableEq, Repr

/-- What the caller sees of a run whose events are chosen by a filter. -/
def Conclusion.seen (c : Conclusion) (f : Journal.Filter) (clock : Journal.Clock) : Seen :=
  let notice :=
    match c.notice with
    | some (notice, message) => Bytes.ofString (Report.noticeLine notice false message)
    | none => []
  { exitCode := c.exitCode
    output := c.output
    errorOutput := Journal.log f clock c.journal ++ notice
    files := c.files }

/-- What is printed where a call asks for no run: the output and the error output. -/
def printed (program : String) (env : Environment) : Invocation → Bytes × Bytes
  | .run _ => ([], [])
  | .help => (Bytes.ofString (helpText program env), [])
  | .invalid e => ([], Bytes.ofString (e.message program))

/-- How a call ends that asks for no run. -/
def exitCode? : Invocation → Option ExitCode
  | .run _ => none
  | .help => some .success
  | .invalid _ => some .failure

/-- Runs the program. -/
def run (m : Machine) (fs : FileSystem) (call : Call) (names : NameSource)
    (clock : Journal.Clock) : Seen :=
  match call.invocation with
  | .run s => (act m fs s names).seen (call.filter s.verbosity) clock
  | early =>
    let (output, errorOutput) := printed (programName call.called) call.environment early
    { exitCode := (exitCode? early).getD .failure, output, errorOutput, files := fs }

end GoldenHarness.CommandLine

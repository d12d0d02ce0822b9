import GoldenHarness.Config.File

/-!
# Errors of a run

What ends a run before it has a result. A decoder that fails and an output that is not the expected
one are results and no errors.
-/

namespace GoldenHarness

/-- Why a run has no result. -/
inductive RunError where
  /-- There is no configuration. -/
  | config (error : ConfigError)
  /-- The decoder cannot be started. -/
  | spawn (program : Path) (cause : Failure)
  /-- The golden file cannot be read. -/
  | goldenRead (path : Path) (cause : Failure)
  /-- The golden file cannot be written. -/
  | goldenWrite (path : Path) (cause : Failure)
  /-- Something else cannot be read, written or created. -/
  | io (error : IoError)
deriving DecidableEq, Repr

namespace RunError

/-- The text of an error. -/
def message : RunError → String
  | config e => e.message
  | spawn program cause => s!"Failed to start trace tool '{Path.display program}': {cause.message}"
  | goldenRead path cause =>
    s!"Failed to read golden file '{Path.display path}' (run with -o to create it): {cause.message}"
  | goldenWrite path cause =>
    s!"Failed to write golden file '{Path.display path}': {cause.message}"
  | io e => s!"I/O error: {e.message}"

end RunError

end GoldenHarness

import GoldenHarness.Text.Utf8

/-!
# Reports

What is printed for the user: the echo of an output, set apart by separator lines, the verdict on a
comparison, and the error and warning lines.
-/

namespace GoldenHarness

/-- What a comparison found. -/
inductive Outcome where
  /-- The output is the expected one. -/
  | passed
  /-- The decoder failed, with the exit code if it exited. -/
  | toolFailed (code : Option Nat)
  /-- The output is not the expected one; the difference tells how. -/
  | mismatch (diff : String)
deriving DecidableEq, Repr

namespace Outcome

/-- Whether an outcome is the one hoped for. -/
def isPass : Outcome → Bool
  | .passed => true
  | _ => false

end Outcome

/-- How a run of the program ends. -/
inductive ExitCode where
  /-- All is well: the outputs agree, the golden file is written or help is shown. -/
  | success
  /-- Anything else. -/
  | failure
deriving DecidableEq, Repr

namespace ExitCode

/-- The number given to the caller. -/
def toNat : ExitCode → Nat
  | .success => 0
  | .failure => 1

end ExitCode

/-- Only a pass counts as success. -/
def Outcome.exitCode : Outcome → ExitCode
  | .passed => .success
  | .toolFailed _ | .mismatch _ => .failure

namespace Report

/-- The line before and after an output. -/
def separator : Bytes := Bytes.ofString "------------8<------------\n"

/-- The line feed. -/
def lineFeed : UInt8 := 0x0A

/-- An output that is not empty, ended by a line feed. -/
def ended (content : Bytes) : Bytes :=
  if content = [] ∨ content.getLast? = some lineFeed then content else content ++ [lineFeed]

/-- An output between separator lines. -/
def bracketed (content : Bytes) : Bytes := separator ++ ended content ++ separator

/-- The verdict on a comparison, with the difference between separator lines. -/
def renderOutcome (label : String) : Outcome → String
  | .passed => s!"{label}: everything ok\n"
  | .toolFailed _ => s!"{label}: failed (exception)\n"
  | .mismatch diff =>
    s!"{label}: failed (unexpected output)\n" ++
      Bytes.toStringLossy (bracketed (Bytes.ofString diff))

/-- A line that calls for attention. -/
inductive Notice where
  /-- The run failed. -/
  | error
  /-- The run went on. -/
  | warning
deriving DecidableEq, Repr

/-- The word that a notice begins with. -/
def Notice.heading : Notice → String
  | .error => "Error"
  | .warning => "Warning"

/-- The sequence that colours a notice: red for an error and yellow for a warning. -/
def Notice.colour : Notice → String
  | .error => "\x1b[31m"
  | .warning => "\x1b[33m"

/-- The line of a notice, in colour on a terminal. -/
def noticeLine (notice : Notice) (onTerminal : Bool) (message : String) : String :=
  if onTerminal then s!"{notice.colour}{notice.heading}: {message}\x1b[0m\n"
  else s!"{notice.heading}: {message}\n"

end Report

end GoldenHarness

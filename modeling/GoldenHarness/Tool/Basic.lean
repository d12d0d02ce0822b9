import GoldenHarness.FileSystem.Basic

/-!
# Decoders

A decoder is a program that is given arguments, prints to its standard output and its error output,
may change files, and ends by exiting or by a signal. What programs there are and where they are
looked for is up to the machine that they run on.
-/

namespace GoldenHarness

/-- How a program ended. -/
inductive ExitStatus where
  /-- It exited with a code. -/
  | exited (code : Nat)
  /-- A signal ended it. -/
  | signalled (signal : Nat)
deriving DecidableEq, Repr

namespace ExitStatus

/-- Whether a program ended well. -/
def isSuccess (s : ExitStatus) : Bool := s = .exited 0

/-- The exit code, if the program exited. -/
def code? : ExitStatus → Option Nat
  | .exited code => some code
  | .signalled _ => none

/-- The signal, if one ended the program. -/
def signal? : ExitStatus → Option Nat
  | .exited _ => none
  | .signalled signal => some signal

/-- The names of the signals, from the first on. -/
def signalNames : List String :=
  ["SIGHUP", "SIGINT", "SIGQUIT", "SIGILL", "SIGTRAP", "SIGABRT", "SIGBUS", "SIGFPE", "SIGKILL",
    "SIGUSR1", "SIGSEGV", "SIGUSR2", "SIGPIPE", "SIGALRM", "SIGTERM", "SIGSTKFLT", "SIGCHLD",
    "SIGCONT", "SIGSTOP", "SIGTSTP", "SIGTTIN", "SIGTTOU", "SIGURG", "SIGXCPU", "SIGXFSZ",
    "SIGVTALRM", "SIGPROF", "SIGWINCH", "SIGIO", "SIGPWR", "SIGSYS"]

/-- How the end of a program is told. -/
def message : ExitStatus → String
  | .exited code => s!"exit status: {code}"
  | .signalled signal =>
    match signal with
    | 0 => "signal: 0"
    | n + 1 =>
      match signalNames[n]? with
      | some name => s!"signal: {signal} ({name})"
      | none => s!"signal: {signal}"

end ExitStatus

/-- What a program did. It may be stopped before it has ended, when its output is no longer read. -/
structure ToolRun where
  /-- What it printed, in the pieces in which it is read. -/
  reads : List Bytes
  /-- What it printed to its error output. -/
  errorOutput : Bytes
  /-- How it ended. -/
  status : ExitStatus
  /-- What files and directories it left when it ended. -/
  entries : Entries
  /-- What files and directories it leaves when it is stopped after so many pieces were read. -/
  entriesIfStopped : Nat → Entries

/-- All that a program printed. -/
def ToolRun.output (r : ToolRun) : Bytes := r.reads.flatten

/-- A program: what it does when it is given arguments and files. -/
abbrev Program := List Bytes → FileSystem → ToolRun

/-- What programs run on. -/
structure Machine where
  /-- The directories in which a program without a directory is looked for. -/
  searchPath : List Path
  /-- The program that the content of a file is, if it is one. -/
  load : Bytes → Option Program

namespace Machine

/-- The program at a path, if it can be started. -/
def programAt (m : Machine) (fs : FileSystem) (p : Path) : Except Failure Program :=
  match fs.locate p with
  | .error e => .error e
  | .ok (.free _) => .error .notFound
  | .ok (.found _ .directory) => .error .permissionDenied
  | .ok (.found _ (.file _ false)) => .error .permissionDenied
  | .ok (.found _ (.file content true)) =>
    match m.load content with
    | some program => .ok program
    | none => .error .execFormat

/-- Looks for a program in one directory after the other. One that may not be executed is passed over,
and told if no other is found. -/
def search (m : Machine) (fs : FileSystem) (name : Path) (denied : Bool) :
    List Path → Except Failure Program
  | [] => .error (if denied then .permissionDenied else .notFound)
  | dir :: rest =>
    match m.programAt fs (Path.join dir name) with
    | .error .notFound | .error .notADirectory => m.search fs name denied rest
    | .error .permissionDenied => m.search fs name true rest
    | answer => answer

/-- Finds the program that a command names. A name without a slash is looked for in the directories of
the search path. -/
def find (m : Machine) (fs : FileSystem) (command : Path) (args : List Bytes) :
    Except Failure Program :=
  if command.contains 0 ∨ args.any (·.contains 0) then .error .nulInArgument
  else if command.contains Path.slash then m.programAt fs command
  else if command = [] then .error .notFound
  else if FileSystem.maxName < command.length then .error .nameTooLong
  else m.search fs command false m.searchPath

end Machine

end GoldenHarness

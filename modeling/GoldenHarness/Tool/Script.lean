import GoldenHarness.Tool.Basic

/-!
# Scripted decoders

A small language for decoders whose behaviour is known step by step: they print, tell their arguments,
copy a file, look at directories, write and remove files, and end at a chosen point.
-/

namespace GoldenHarness.Script

/-- A step of a scripted decoder. -/
inductive Step where
  /-- Prints bytes. -/
  | print (bytes : Bytes)
  /-- Prints bytes to the error output. -/
  | complain (bytes : Bytes)
  /-- Prints an argument, counted from one, and a line feed. -/
  | argument (index : Nat)
  /-- Prints the number of arguments and a line feed. -/
  | argumentCount
  /-- Prints the file that an argument names, or exits if it cannot be read. -/
  | copy (index : Nat)
  /-- Prints what there is to read on the standard input, which is nothing. -/
  | input
  /-- Prints the number of entries of a directory and a line feed. -/
  | count (directory : Path)
  /-- Removes the hidden log files of a directory. -/
  | clear (directory : Path)
  /-- Writes a file. -/
  | write (path : Path) (content : Bytes)
  /-- Exits. -/
  | exit (code : Nat)
  /-- Ends by a signal. -/
  | kill (signal : Nat)
deriving DecidableEq, Repr

/-- The exit code of a decoder that cannot read its capture. -/
def noInput : Nat := 66

/-- The number of bytes that are read at a time. -/
def readSize : Nat := 8192

/-- Cuts bytes into pieces of `readSize`, at most `fuel` of them. -/
def piecesFrom : (fuel : Nat) → Bytes → List Bytes
  | 0, _ => []
  | fuel + 1, bs => if bs.isEmpty then [] else bs.take readSize :: piecesFrom fuel (bs.drop readSize)

/-- Cuts bytes into the pieces in which they are read. -/
def pieces (bs : Bytes) : List Bytes := piecesFrom (bs.length / readSize + 1) bs

/-- What a decoder has done so far. -/
structure State where
  /-- What it printed. -/
  output : Bytes
  /-- What it printed to the error output. -/
  errorOutput : Bytes
  /-- The files. -/
  files : FileSystem

/-- The location of a directory, if a path leads to one. -/
def directory? (fs : FileSystem) (p : Path) : Option Location :=
  match fs.locate p with
  | .ok (.found loc .directory) => some loc
  | _ => none

/-- Whether a name is that of a hidden log file. -/
def isHiddenLog (name : Bytes) : Bool :=
  let suffix := Bytes.ofString ".log"
  name.head? = some 0x2E ∧ suffix.isSuffixOf name ∧ suffix.length < name.length

/-- Removes the hidden log files of a directory. -/
def clearLogs (fs : FileSystem) (p : Path) : FileSystem :=
  match directory? fs p with
  | none => fs
  | some loc =>
    (fs.children loc).foldl
      (fun fs (name, node) =>
        if isHiddenLog name ∧ node ≠ .directory then fs.erase (loc ++ [name]) else fs)
      fs

/-- The bytes of a number on a line of its own. -/
def numberLine (n : Nat) : Bytes := Bytes.ofString s!"{n}\n"

/-- The content of the file that an argument names. An empty name, or one that begins with a dash, is
not taken for that of a file. -/
def source? (fs : FileSystem) (arg : Bytes) : Option Bytes :=
  if arg.head? = some 0x2D then none
  else
    match fs.read arg with
    | .ok content => some content
    | .error _ => none

/-- Performs steps, and tells how the decoder ended. -/
def perform (args : List Bytes) : List Step → State → State × ExitStatus
  | [], s => (s, .exited 0)
  | step :: rest, s =>
    let argument (index : Nat) : Bytes := (args[index - 1]?).getD []
    let print (bs : Bytes) : State := { s with output := s.output ++ bs }
    match step with
    | .print bs => perform args rest (print bs)
    | .complain bs => perform args rest { s with errorOutput := s.errorOutput ++ bs }
    | .argument index => perform args rest (print (argument index ++ [0x0A]))
    | .argumentCount => perform args rest (print (numberLine args.length))
    | .copy index =>
      match source? s.files (argument index) with
      | some content => perform args rest (print content)
      | none => (s, .exited noInput)
    | .input => perform args rest s
    | .count p =>
      let entries := (directory? s.files p).elim [] s.files.children
      perform args rest (print (numberLine entries.length))
    | .clear p => perform args rest { s with files := clearLogs s.files p }
    | .write p content =>
      match s.files.write p content with
      | .ok files => perform args rest { s with files }
      | .error _ => perform args rest s
    | .exit code => (s, .exited code)
    | .kill signal => (s, .signalled signal)

/-- The program of a list of steps. It performs them all, even if its output is not read. -/
def program (steps : List Step) : Program := fun args files =>
  let (s, status) := perform args steps ⟨[], [], files⟩
  { reads := pieces s.output
    errorOutput := s.errorOutput
    status
    entries := s.files.entries
    entriesIfStopped := fun _ => s.files.entries }

end GoldenHarness.Script

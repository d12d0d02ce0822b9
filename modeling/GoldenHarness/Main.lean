import GoldenHarness.CommandLine.Run
import GoldenHarness.FileSystem.Tree
import GoldenHarness.Tool.Script

/-!
# The program

The decoder runs at the other end of a pipe: what it prints is the standard input, and it is taken to
end well. The files that a run reads are read before it, and the golden file is written after it if
the run has changed it. All else is `CommandLine.run`.
-/

namespace GoldenHarness.Program

/-- The names of the environment variables that a run looks at. -/
def namesRead : List String :=
  CommandLine.Call.filterVariable ::
    CommandLine.ValueOption.all.map CommandLine.ValueOption.envVariable

/-- A machine on which every program prints the same. -/
def pipe (directory : Path) (output : Bytes) : Machine :=
  ⟨[directory], fun _ => some (Script.program [.print output])⟩

/-- The letters of random names. -/
def letters : List Char := "abcdefghijklmnopqrstuvwxyz0123456789".toList

/-- The last `count` letters of a number, the least important one first. -/
def lettersOf : (count n : Nat) → List Char
  | 0, _ => []
  | count + 1, n =>
    (letters[n % letters.length]?).getD 'a' :: lettersOf count (n / letters.length)

/-- Names of six letters, from a random number on. -/
def namesFrom (seed : Nat) : NameSource := fun i => Utf8.encode (lettersOf 6 (seed + i))

/-- The working directory and an empty snapshot of it. -/
def emptySnapshot (directory : Path) : FileSystem :=
  ⟨(Path.parts directory).filter fun part => ¬ Path.isBlank part, []⟩

/-- Adds a file to a snapshot, if it can be read. -/
def snapshot (fs : FileSystem) (p : Path) : IO FileSystem := do
  try
    let content ← IO.FS.readBinFile (Path.display p)
    return fs.layFile p content.toList false
  catch _ => return fs

/-- Adds all that a run with some settings looks at to a snapshot. -/
def snapshotFor (fs : FileSystem) (s : CommandLine.Settings) : IO FileSystem := do
  let fs ← s.config.elim (pure fs) (snapshot fs)
  match Config.resolve fs s with
  | .error _ => return fs
  | .ok c =>
    let fs ← snapshot ((fs.layDirectory c.scratchDir).layFile c.tool [] true) c.golden
    return fs

/-- Writes the golden file if a run has changed it. -/
def keep (before after : FileSystem) (golden : Path) : IO Unit := do
  if let .ok content := after.read golden then
    if (before.read golden).toOption ≠ some content then
      IO.FS.writeBinFile (Path.display golden) ⟨content.toArray⟩

/-- Runs the program, and answers with its exit code. -/
def run (words : List String) : IO UInt32 := do
  let directory := Bytes.ofString ((← IO.getEnv "PWD").getD "/")
  let environment ← namesRead.filterMapM fun name => do
    return (← IO.getEnv name).map fun value => (name, Bytes.ofString value)
  let call : CommandLine.Call := ⟨none, words.map Bytes.ofString, environment⟩
  let (output, before) ←
    match call.invocation with
    | .run s => do
      let output ← (← IO.getStdin).readBinToEnd
      pure (output.toList, ← snapshotFor (emptySnapshot directory) s)
    | _ => pure ([], emptySnapshot directory)
  let names := namesFrom (← IO.rand 0 (Nat.pow letters.length 6 - 1))
  let time := toString (← IO.monoMsNow)
  let seen := CommandLine.run (pipe directory output) before call names fun _ => time
  if let .run s := call.invocation then
    if let .ok c := Config.resolve before s then keep before seen.files c.golden
  (← IO.getStdout).write ⟨seen.output.toArray⟩
  (← IO.getStderr).write ⟨seen.errorOutput.toArray⟩
  return UInt32.ofNat seen.exitCode.toNat

end GoldenHarness.Program

/-- Runs the program. -/
def main (words : List String) : IO UInt32 := GoldenHarness.Program.run words

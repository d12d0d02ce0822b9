import GoldenHarness.FileSystem.Basic

/-!
# Trees of files

Laying out files and directories with all the directories that lead to them, removing whole
directories, and listing what is below a directory.
-/

namespace GoldenHarness.FileSystem

/-- The location that a path names, as far as its text tells. -/
def locationOf (fs : FileSystem) (p : Path) : Location :=
  (Path.components p).foldl
    (fun loc component =>
      match component with
      | .root => []
      | .current => loc
      | .parent => loc.dropLast
      | .name n => loc ++ [n])
    fs.workingDirectory

/-- Makes a directory where there is nothing. -/
def ensureDirectory (fs : FileSystem) (loc : Location) : FileSystem :=
  match fs.lookup loc with
  | some _ => fs
  | none => fs.insert loc .directory

/-- Makes a directory and all directories that lead to it. -/
def ensureDirectories (fs : FileSystem) (loc : Location) : FileSystem :=
  (List.range loc.length).foldl (fun fs n => fs.ensureDirectory (loc.take (n + 1))) fs

/-- Lays out a directory. -/
def layDirectory (fs : FileSystem) (p : Path) : FileSystem :=
  fs.ensureDirectories (fs.locationOf p)

/-- Lays out a file. One that could be executed can be executed afterwards. -/
def layFile (fs : FileSystem) (p : Path) (content : Bytes) (isExecutable : Bool) : FileSystem :=
  let loc := fs.locationOf p
  let wasExecutable :=
    match fs.lookup loc with
    | some (.file _ x) => x
    | _ => false
  (fs.ensureDirectories loc.dropLast).insert loc (.file content (isExecutable || wasExecutable))

/-- Removes a file, or a directory with all that is in it, and tells whether there was one. -/
def removeTree (fs : FileSystem) (p : Path) : Bool × FileSystem :=
  let loc := fs.locationOf p
  match fs.lookup loc with
  | none => (false, fs)
  | some _ => (true, { fs with entries := fs.entries.filter fun e => ¬ loc.isPrefixOf e.1 })

/-- All that is below a location, with the names that lead there from it. -/
def below (fs : FileSystem) (loc : Location) : Entries :=
  fs.entries.filterMap fun (entry, node) =>
    if loc.isPrefixOf entry ∧ entry ≠ loc then some (entry.drop loc.length, node) else none

end GoldenHarness.FileSystem

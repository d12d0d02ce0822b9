import GoldenHarness.FileSystem.Failure

/-!
# Files and directories

A file system is a working directory and a list of what there is, each at its own location: the names
that lead to it from the root. The working directory and all directories above it are always there.
A path is walked from the root or from the working directory, and leads to something that is there or
to a free name in a directory that is there. Every operation answers with a failure or with the new
file system, and changes at most the one entry it is about.
-/

namespace GoldenHarness

/-- The names that lead to a file or directory from the root. -/
abbrev Location := List Bytes

/-- A file or a directory. -/
inductive Node where
  /-- A directory. -/
  | directory
  /-- A file, with what it holds and whether it may be executed. -/
  | file (content : Bytes) (isExecutable : Bool)
deriving DecidableEq, Repr

/-- Files and directories, each at its location. -/
abbrev Entries := List (Location × Node)

/-- All files and directories, and the working directory. -/
structure FileSystem where
  /-- The directory from which relative paths are walked. -/
  workingDirectory : Location
  /-- What there is, besides the working directory and the directories above it. -/
  entries : Entries
deriving DecidableEq, Repr

namespace FileSystem

/-- What is at a location. -/
def lookup (fs : FileSystem) (loc : Location) : Option Node :=
  if loc.isPrefixOf fs.workingDirectory then some .directory else fs.entries.lookup loc

/-- Puts a node at a location, in the place of what is there. -/
def insert (fs : FileSystem) (loc : Location) (node : Node) : FileSystem :=
  match fs.entries.lookup loc with
  | some _ =>
    { fs with entries := fs.entries.map fun e => if e.1 = loc then (loc, node) else e }
  | none => { fs with entries := fs.entries ++ [(loc, node)] }

/-- Removes what is at a location. -/
def erase (fs : FileSystem) (loc : Location) : FileSystem :=
  { fs with entries := fs.entries.filter (·.1 ≠ loc) }

/-- Where a path leads. -/
inductive Place where
  /-- To something that is there. -/
  | found (loc : Location) (node : Node)
  /-- To a name that is free, in a directory that is there. -/
  | free (loc : Location)
deriving DecidableEq, Repr

/-- The number of bytes that a name may have. -/
def maxName : Nat := 255

/-- The number of bytes that a path may have. -/
def maxPath : Nat := 4095

/-- Follows the parts of a path from a location on. Every part but the last has to lead to a
directory. -/
def walk (fs : FileSystem) : Location → List Bytes → Except Failure Place
  | here, [] =>
    match fs.lookup here with
    | some node => .ok (.found here node)
    | none => .error .notFound
  | here, part :: rest =>
    match fs.lookup here with
    | none => .error .notFound
    | some (.file ..) => .error .notADirectory
    | some .directory =>
      if Path.isBlank part then fs.walk here rest
      else if part = Path.dotDot then fs.walk here.dropLast rest
      else if maxName < part.length then .error .nameTooLong
      else
        let next := here ++ [part]
        match fs.lookup next with
        | some _ => fs.walk next rest
        | none => if rest.all (· = []) then .ok (.free next) else .error .notFound

/-- Where a path leads. The empty path leads nowhere. -/
def locate (fs : FileSystem) (p : Path) : Except Failure Place :=
  if p = [] then .error .notFound
  else if p.contains 0 then .error .nulInPath
  else if maxPath < p.length then .error .nameTooLong
  else fs.walk (if Path.isAbsolute p then [] else fs.workingDirectory) (Path.parts p)

/-- What a file holds. -/
def read (fs : FileSystem) (p : Path) : Except Failure Bytes :=
  match fs.locate p with
  | .error e => .error e
  | .ok (.found _ (.file content _)) => .ok content
  | .ok (.found _ .directory) => .error .isADirectory
  | .ok (.free _) => .error .notFound

/-- The path without the slashes at its end. -/
def dropSlashes (p : Path) : Path := (p.reverse.dropWhile (· = Path.slash)).reverse

/-- Makes a file hold `content`. A file that is there may be executed afterwards if it could before; a
new one may not. A path that ends with a slash cannot name a file. -/
def write (fs : FileSystem) (p : Path) (content : Bytes) : Except Failure FileSystem :=
  if p.getLast? = some Path.slash ∧ dropSlashes p ≠ [] then
    match fs.locate (dropSlashes p) with
    | .error e => .error e
    | .ok _ => .error .isADirectory
  else
    match fs.locate p with
    | .error e => .error e
    | .ok (.found loc (.file _ x)) => .ok (fs.insert loc (.file content x))
    | .ok (.found _ .directory) => .error .isADirectory
    | .ok (.free loc) => .ok (fs.insert loc (.file content false))

/-- Creates an empty file where there is nothing, and tells its location. -/
def createNew (fs : FileSystem) (p : Path) : Except Failure (Location × FileSystem) :=
  match fs.locate p with
  | .error e => .error e
  | .ok (.found ..) => .error .alreadyExists
  | .ok (.free loc) => .ok (loc, fs.insert loc (.file [] false))

/-- What the file at a location holds. -/
def readAt (fs : FileSystem) (loc : Location) : Except Failure Bytes :=
  match fs.lookup loc with
  | some (.file content _) => .ok content
  | some .directory => .error .isADirectory
  | none => .error .notFound

/-- Adds to the file at a location, if it is still there. -/
def appendAt (fs : FileSystem) (loc : Location) (bs : Bytes) : FileSystem :=
  match fs.lookup loc with
  | some (.file content x) => fs.insert loc (.file (content ++ bs) x)
  | _ => fs

/-- Removes the file at a location. -/
def removeAt (fs : FileSystem) (loc : Location) : Except Failure FileSystem :=
  match fs.lookup loc with
  | some (.file ..) => .ok (fs.erase loc)
  | some .directory => .error .isADirectory
  | none => .error .notFound

/-- The names of what is in the directory at a location, with what is there. -/
def children (fs : FileSystem) (loc : Location) : List (Bytes × Node) :=
  fs.entries.filterMap fun (entry, node) =>
    match entry.getLast? with
    | some name => if entry.dropLast = loc then some (name, node) else none
    | none => none

/-- The path of a location. -/
def pathOf (loc : Location) : Path :=
  if loc = [] then [Path.slash] else loc.flatMap (Path.slash :: ·)

/-- The path of the working directory. -/
def workingPath (fs : FileSystem) : Path := pathOf fs.workingDirectory

end FileSystem

end GoldenHarness

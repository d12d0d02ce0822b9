import GoldenHarness.FileSystem.Basic

/-!
# Transient files

A transient file holds the output of one run while it is compared. It is created under a name that is
partly drawn at random, in a directory that is made absolute first, so that it is found again from
wherever. Whoever holds it has to close it, which removes the file.
-/

namespace GoldenHarness

/-- A source of names: the first, the second and so on. -/
abbrev NameSource := Nat → Bytes

namespace NameSource

/-- The names of a source after the first `n`. -/
def drop (names : NameSource) (n : Nat) : NameSource := fun i => names (n + i)

end NameSource

/-- A transient file that is in use. -/
structure Transient where
  /-- The path under which the file was created. -/
  path : Path
  /-- Where the file is. -/
  location : Location
deriving DecidableEq, Repr

namespace Transient

/-- How many names are tried before it is given up. -/
def maxDraws : Nat := 65536

/-- The name of a transient file, which tells what it is for. -/
def fileName (stem : String) (drawn : Bytes) : Bytes :=
  Bytes.ofString s!".{stem}." ++ drawn ++ Bytes.ofString ".log"

/-- A transient file that was just created. -/
structure Created where
  /-- The transient file. -/
  transient : Transient
  /-- The files and directories with it. -/
  files : FileSystem
  /-- How many names were drawn. -/
  draws : Nat
deriving DecidableEq, Repr

/-- Tries names until one is not taken, at most `fuel` of them, where `draws` were tried before. -/
def createFrom (fs : FileSystem) (dir : Path) (stem : String) (names : NameSource) :
    (fuel draws : Nat) → Except IoError Created
  | 0, _ => .error ⟨.tooManyTransients, some dir⟩
  | fuel + 1, draws =>
    let path := Path.join dir (fileName stem (names draws))
    match fs.createNew path with
    | .ok (location, files) => .ok ⟨⟨path, location⟩, files, draws + 1⟩
    | .error .alreadyExists => createFrom fs dir stem names fuel (draws + 1)
    | .error cause => .error ⟨cause, some path⟩

/-- Creates an empty transient file in a directory. -/
def create (fs : FileSystem) (dir : Path) (stem : String) (names : NameSource) :
    Except IoError Created :=
  createFrom fs (Path.join fs.workingPath dir) stem names maxDraws 0

/-- Adds to a transient file, unless it has been removed behind its holder's back. -/
def append (t : Transient) (fs : FileSystem) (bs : Bytes) : FileSystem := fs.appendAt t.location bs

/-- What a transient file holds. -/
def read (t : Transient) (fs : FileSystem) : Except Failure Bytes := fs.readAt t.location

/-- Removes a transient file. -/
def remove (t : Transient) (fs : FileSystem) : Except IoError FileSystem :=
  (fs.removeAt t.location).mapError fun cause => ⟨cause, some t.path⟩

end Transient

end GoldenHarness

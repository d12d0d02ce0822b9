import GoldenHarness.Text.Utf8

/-!
# Paths

A path is a byte string in which slashes separate names. It is read as a list of components: the root
or the current directory where the path begins with one, and then a name or a step to the parent
directory for each part that is neither empty nor a single dot. Functions on paths work on the text,
so a path that is given is printed and passed on as it was given.
-/

namespace GoldenHarness

/-- A path, as it was given. -/
abbrev Path := Bytes

namespace Path

/-- The byte that separates names. -/
def slash : UInt8 := 0x2F

/-- The part that stands for the directory it is in. -/
def dot : Bytes := [0x2E]

/-- The part that stands for the parent directory. -/
def dotDot : Bytes := [0x2E, 0x2E]

/-- A step of a path. -/
inductive Component where
  /-- The root, at the start of an absolute path. -/
  | root
  /-- The current directory, at the start of a path. -/
  | current
  /-- The parent directory. -/
  | parent
  /-- A directory entry. -/
  | name (bytes : Bytes)
deriving DecidableEq, Repr

/-- The parts between slashes, where `held` is the part being read, back to front. -/
def partsFrom (held : Bytes) : Bytes → List Bytes
  | [] => [held.reverse]
  | b :: rest => if b = slash then held.reverse :: partsFrom [] rest else partsFrom (b :: held) rest

/-- The parts of a path: what stands before, between and after its slashes. -/
def parts (p : Path) : List Bytes := partsFrom [] p

/-- Puts parts together with a slash between two. -/
def ofParts (parts : List Bytes) : Path := List.intercalate [slash] parts

/-- Whether a part is passed over when a path is read. -/
def isBlank (part : Bytes) : Bool := part = [] ∨ part = dot

/-- What a path begins with. -/
inductive Anchor where
  /-- The path is absolute. -/
  | root
  /-- The path begins with a single dot. -/
  | current
  /-- The path begins with its first part. -/
  | none
deriving DecidableEq, Repr

/-- What a path begins with, and the parts that follow. -/
def anchored (p : Path) : Anchor × List Bytes :=
  match parts p with
  | first :: rest =>
    if first = [] ∧ rest ≠ [] then (.root, rest)
    else if first = dot then (.current, rest)
    else (.none, first :: rest)
  | [] => (.none, [])

/-- The path with a given beginning and given parts. -/
def ofAnchored : Anchor → List Bytes → Path
  | .root, parts => slash :: ofParts parts
  | .current, [] => dot
  | .current, parts => dot ++ slash :: ofParts parts
  | .none, parts => ofParts parts

/-- The component that a part stands for. -/
def componentOf (part : Bytes) : Component :=
  if part = dotDot then .parent else .name part

/-- The components of a path. -/
def components (p : Path) : List Component :=
  let (anchor, parts) := anchored p
  let steps := (parts.filter fun part => ¬ isBlank part).map componentOf
  match anchor with
  | .root => .root :: steps
  | .current => .current :: steps
  | .none => steps

/-- Drops the blank parts at the end. -/
def trimBlank (parts : List Bytes) : List Bytes :=
  (parts.reverse.dropWhile isBlank).reverse

/-- The path without its last component, if that is not the root and there is one. -/
def parent? (p : Path) : Option Path :=
  let (anchor, parts) := anchored p
  match trimBlank parts, anchor with
  | [], .root => none
  | [], .current => some []
  | [], .none => none
  | shown, anchor => some (ofAnchored anchor (trimBlank shown.dropLast))

/-- The last component, if it is a name. -/
def fileName? (p : Path) : Option Bytes :=
  match (components p).getLast? with
  | some (.name n) => some n
  | _ => none

/-- Whether a path begins at the root. -/
def isAbsolute (p : Path) : Bool := p.head? = some slash

/-- The path `p`, taken from the directory `base`. -/
def join (base p : Path) : Path :=
  if isAbsolute p then p
  else if base = [] ∨ base.getLast? = some slash then base ++ p
  else base ++ slash :: p

/-- The path as it is shown. -/
def display (p : Path) : String := Bytes.toStringLossy p

/-- The directory that a file is in, `.` if its path does not say. -/
def directory (p : Path) : Path :=
  match parent? p with
  | some [] | none => dot
  | some parent => parent

end Path

end GoldenHarness

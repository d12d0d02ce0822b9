import GoldenHarness.Transient.Desk

/-!
# What happens at a desk

Transient files are created, written, removed behind the desk's back and closed, in any order and any
number of times. The names that a creation has tried are used up, whether or not it came to a file.
-/

namespace GoldenHarness.Transient

/-- How many names are used up by the time that one of them is not taken, or that it is given up. -/
def triedFrom (fs : FileSystem) (dir : Path) (stem : String) (names : NameSource) :
    (fuel draws : Nat) → Nat
  | 0, draws => draws
  | fuel + 1, draws =>
    match fs.createNew (Path.join dir (fileName stem (names draws))) with
    | .error .alreadyExists => triedFrom fs dir stem names fuel (draws + 1)
    | _ => draws + 1

/-- How many names a creation tries. -/
def tried (fs : FileSystem) (dir : Path) (stem : String) (names : NameSource) : Nat :=
  triedFrom fs (Path.join fs.workingPath dir) stem names maxDraws 0

namespace Desk

/-- What may happen at a desk. -/
inductive Move where
  /-- A transient file is created. -/
  | create (dir : Path) (stem : String)
  /-- Something is written to the file with a number. -/
  | write (i : Nat) (bytes : Bytes)
  /-- The file with a number is removed behind the desk's back. -/
  | unlink (i : Nat)
  /-- The file with a number is closed. -/
  | close (i : Nat)
deriving DecidableEq, Repr

namespace Move

/-- The number of the file that a move is about, if the file is there before. -/
def number? : Move → Option Nat
  | create .. => none
  | write i _ | unlink i | close i => some i

/-- What a move writes to the file with a number. -/
def bytesTo (i : Nat) : Move → Bytes
  | write j bytes => if j = i then bytes else []
  | _ => []

end Move

/-- Makes a move. -/
def perform (names : NameSource) (d : Desk) : Move → Desk
  | .create dir stem =>
    match d.create dir stem names with
    | .ok (_, next) => next
    | .error _ => { d with draws := d.draws + tried d.files dir stem (names.drop d.draws) }
  | .write i bytes => d.write i bytes
  | .unlink i => (d.unlink i).2
  | .close i => (d.close i).2

/-- The desk after a sequence of moves. -/
def after (names : NameSource) (files : FileSystem) (moves : List Move) : Desk :=
  moves.foldl (perform names) (empty files)

/-- What a sequence of moves writes to the file with a number, one after the other. -/
def writtenTo (i : Nat) (moves : List Move) : Bytes := moves.flatMap (Move.bytesTo i)

end Desk

end GoldenHarness.Transient

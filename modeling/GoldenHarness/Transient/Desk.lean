import GoldenHarness.Transient.Basic

/-!
# Several transient files at once

A desk holds transient files, each under the number at which it was created. They are written and
closed in any order, and their names are drawn from one source. A file that is removed behind the
desk's back stays on the desk until it is closed.
-/

namespace GoldenHarness.Transient

/-- Transient files in use. -/
structure Desk where
  /-- The files and directories. -/
  files : FileSystem
  /-- The transient files in the order in which they were created; those that were closed have left
  their place empty. -/
  held : List (Option Transient)
  /-- How many names were drawn. -/
  draws : Nat
deriving DecidableEq, Repr

namespace Desk

/-- A desk without transient files. -/
def empty (files : FileSystem) : Desk := ⟨files, [], 0⟩

/-- The transient file with a number, if it is in use. -/
def get? (d : Desk) (i : Nat) : Option Transient := (d.held[i]?).join

/-- The transient files that are in use. -/
def live (d : Desk) : List Transient := d.held.filterMap id

/-- Creates a transient file. -/
def create (d : Desk) (dir : Path) (stem : String) (names : NameSource) :
    Except IoError (Transient × Desk) :=
  match Transient.create d.files dir stem (names.drop d.draws) with
  | .error e => .error e
  | .ok created =>
    .ok (created.transient,
      ⟨created.files, d.held ++ [some created.transient], d.draws + created.draws⟩)

/-- Adds to a transient file. -/
def write (d : Desk) (i : Nat) (bs : Bytes) : Desk :=
  match d.get? i with
  | some t => { d with files := t.append d.files bs }
  | none => d

/-- Removes a file behind the desk's back, and tells whether it was there. -/
def unlink (d : Desk) (i : Nat) : Bool × Desk :=
  match d.get? i with
  | none => (false, d)
  | some t =>
    match t.remove d.files with
    | .ok files => (true, { d with files })
    | .error _ => (false, d)

/-- Closes a transient file, and tells whether it was in use. -/
def close (d : Desk) (i : Nat) : Bool × Desk :=
  match d.get? i with
  | none => (false, d)
  | some t =>
    let files :=
      match t.remove d.files with
      | .ok files => files
      | .error _ => d.files
    (true, { d with files, held := d.held.set i none })

/-- The number of paths under which transient files are in use. -/
def distinctPaths (d : Desk) : Nat := (d.live.map Transient.path).eraseDups.length

/-- Closes all transient files. -/
def closeAll (d : Desk) : Desk :=
  (List.range d.held.length).foldl (fun d i => (d.close i).2) d

end Desk

end GoldenHarness.Transient

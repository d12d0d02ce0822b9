import GoldenHarness.Proofs.CommandLine.Endings

/-!
# What a run says about itself

How much a run says about itself is up to its verbosity and to the filter in its environment. Neither
has a part in what the run does: two runs that differ in nothing else end in the same way, with the same
output and the same files, and the one that says less leaves out lines of the one that says more.
-/

namespace GoldenHarness.CommandLine

open Journal Report

variable {m : Machine} {fs : FileSystem} {s s' : Settings} {names : NameSource} {call call' : Call}

/-! ## Pieces of the error output -/

/-- A piece of the error output of a run. -/
inductive Piece where
  /-- The line of an event, with the time at which it happened. -/
  | line (e : Event) (time : String)
  /-- What the decoder printed to its error output. -/
  | passedOn (bytes : Bytes)
  /-- The notice at the end. -/
  | notice (kind : Notice) (message : String)
deriving DecidableEq, Repr

namespace Piece

/-- The text of a piece. -/
def text : Piece → Bytes
  | line e time => Bytes.ofString (e.line time)
  | passedOn bytes => bytes
  | notice kind message => Bytes.ofString (noticeLine kind false message)

/-- Whether a piece is there under a filter. Only the lines of events can be left out. -/
def isShown (f : Filter) : Piece → Bool
  | line e _ => f.shows e
  | _ => true

/-- The piece for an entry of a journal that happened at some time. -/
def ofEntry (time : String) : Entry → Piece
  | .event e => line e time
  | .tool bytes => passedOn bytes

end Piece

/-- All there is to say about a run, in the order in which it happens. -/
def Conclusion.pieces (c : Conclusion) (clock : Clock) : List Piece :=
  c.journal.zipIdx.map (fun entry => Piece.ofEntry (clock entry.2) entry.1) ++
    c.notice.toList.map fun (kind, message) => .notice kind message

/-- What is said about a run under a filter. -/
def Conclusion.shown (c : Conclusion) (f : Filter) (clock : Clock) : List Piece :=
  (c.pieces clock).filter (Piece.isShown f)

theorem run_eq_seen (h : call.invocation = .run s) (clock : Clock) :
    run m fs call names clock = (act m fs s names).seen (call.filter s.verbosity) clock := by
  rw [run, h]

end GoldenHarness.CommandLine

import GoldenHarness.Journal.Filter

/-!
# Log of a run

What appears on the error output in the course of a run: the lines of the events that are shown, and
what the decoder prints there, in the order in which it happened.
-/

namespace GoldenHarness.Journal

/-- The time of an entry, as it is written, by the entry's place in the journal. -/
abbrev Clock := Nat → String

/-- What is written for an entry. -/
def Entry.written (f : Filter) (time : String) : Entry → Bytes
  | .event e => if f.shows e then Bytes.ofString (e.line time) else []
  | .tool bytes => bytes

/-- What is written for the entries of a journal. -/
def log (f : Filter) (clock : Clock) (journal : List Entry) : Bytes :=
  journal.zipIdx.flatMap fun (entry, i) => entry.written f (clock i)

end GoldenHarness.Journal

import GoldenHarness.Proofs.CommandLine.Diagnostics

/-!
# What a run tells of the transient file

A run that says all there is to say tells of each transient file twice: when it has been created, and
when it has been closed, which is the last thing before the notice at the end. The second time it tells
whether the file could be removed. It could, unless the decoder had removed it before.
-/

namespace GoldenHarness

open Journal

namespace Run

variable {m : Machine} {fs : FileSystem} {c : Config} {echo : Writer} {names : NameSource}
  {created : Transient.Created} {t : Transient}

/-! ## Closing -/

end Run

namespace CommandLine

variable {m : Machine} {fs : FileSystem} {s : Settings} {names : NameSource} {call : Call}

/-! ## Pieces about the transient file -/

namespace Piece

/-- Whether a piece is the line of an event that tells of a transient file. -/
def isAboutTransient : Piece → Bool
  | line e _ => e.isAboutTransient
  | _ => false

end Piece

end CommandLine

end GoldenHarness

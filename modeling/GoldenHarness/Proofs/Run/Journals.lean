import GoldenHarness.Proofs.Journal.Log
import GoldenHarness.Proofs.Run.Comparison
import GoldenHarness.Proofs.Run.Generation

/-!
# What is noted of a run

The journal of a run has what the decoder printed to its error output, between events that tell how far
the run has got. Only a comparison tells of a transient file, before and after all else. So nothing calls
for attention but a transient file that could not be removed.
-/

namespace GoldenHarness.Run

open Journal

variable {m : Machine} {fs : FileSystem} {c : Config} {echo : Writer} {names : NameSource}
  {created : Transient.Created} {program : Program}

/-! ## Events -/

end GoldenHarness.Run

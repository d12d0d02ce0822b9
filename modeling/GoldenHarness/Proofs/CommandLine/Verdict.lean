import GoldenHarness.Proofs.CommandLine.Diagnostics
import GoldenHarness.Proofs.Text.Encoding

/-!
# Where the verdict stands

The verdict on a comparison is printed behind the echo of the decoder's output, and nothing is put
between the two. So it begins on a line of its own if and only if the decoder ended its last line, or
printed nothing at all.
-/

namespace GoldenHarness.CommandLine

open Report

/-- What an output ends with begins on a line of its own. -/
def BeginsLine (text output : Bytes) : Prop :=
  ∃ before, output = before ++ text ∧ (before = [] ∨ before.getLast? = some lineFeed)

theorem beginsLine_append_iff {before text : Bytes} :
    BeginsLine text (before ++ text) ↔ before = [] ∨ before.getLast? = some lineFeed := by
  constructor
  · rintro ⟨before', heq, hended⟩
    rw [List.append_cancel_right heq]
    exact hended
  · intro hended
    exact ⟨before, rfl, hended⟩

/-- The line that a verdict begins with, after the label. -/
def phrase : Outcome → String
  | .passed => ": everything ok\n"
  | .toolFailed _ => ": failed (exception)\n"
  | .mismatch _ => ": failed (unexpected output)\n"

theorem phrase_prefix (label : String) (outcome : Outcome) :
    Bytes.ofString (label ++ phrase outcome) <+: Bytes.ofString (renderOutcome label outcome) := by
  cases outcome with
  | passed | toolFailed => exact List.prefix_refl _
  | mismatch diff => exact ⟨_, (Bytes.ofString_append _ _).symm⟩

variable {m : Machine} {fs : FileSystem} {s : Settings} {names : NameSource} {call : Call} {c : Config}
  {outcome : Outcome}

/-- A comparison with an outcome has had a transient file and a decoder. -/
theorem started_of_outcome {echo : Writer}
    (h : (Run.compare m fs c echo names).result = .ok outcome) :
    ∃ created program, Transient.create fs c.scratchDir c.label names = .ok created ∧
      m.find created.files c.tool c.toolArgs = .ok program := by
  cases hcreate : Transient.create fs c.scratchDir c.label names with
  | error e =>
    rw [Run.compare_of_create_error hcreate] at h
    cases h
  | ok created =>
    cases hfind : m.find created.files c.tool c.toolArgs with
    | error cause =>
      rw [(Run.result_of_find_error hcreate hfind).2] at h
      cases h
    | ok program => exact ⟨created, program, rfl, hfind⟩

/-- **Where the verdict stands.** The output of a comparison with an outcome is all that the decoder
printed and then the verdict, which begins with the label and a phrase for the outcome. So the verdict
begins on a line of its own if and only if the decoder printed nothing or ended its last line. -/
theorem verdict_begins_line_iff (hcall : call.invocation = .run s) (hmode : s.generate = false)
    (hconfig : Config.resolve fs s = .ok c)
    (houtcome : (Run.compare m fs c (.empty none) names).result = .ok outcome)
    (clock : Journal.Clock) :
    ∃ created program, Transient.create fs c.scratchDir c.label names = .ok created ∧
      m.find created.files c.tool c.toolArgs = .ok program ∧
      let printed := (program c.toolArgs created.files).output
      let verdict := Bytes.ofString (renderOutcome c.label outcome)
      let seen := run m fs call names clock
      seen.output = printed ++ verdict ∧
        Bytes.ofString (c.label ++ phrase outcome) <+: verdict ∧
        (BeginsLine verdict seen.output ↔ printed = [] ∨ printed.getLast? = some lineFeed) := by
  obtain ⟨created, program, hcreate, hfind⟩ := started_of_outcome houtcome
  refine ⟨created, program, hcreate, hfind, ?_⟩
  intro printed verdict seen
  have houtput : seen.output = printed ++ verdict := by
    show (run m fs call names clock).output = _
    rw [run_eq_seen hcall, act_of_compare hconfig hmode, actCompare_of_ok houtcome]
    show (Run.compare m fs c (.empty none) names).echo.written ++ verdict = _
    rw [written_compare hcreate hfind]
  refine ⟨houtput, phrase_prefix c.label outcome, ?_⟩
  rw [houtput]
  exact beginsLine_append_iff

/-- The decoder ends its last line. -/
theorem verdict_of_ended_output :
    let machine := Run.Sample.machine [.print (Bytes.ofString "old\n")]
    let call : Call := ⟨none, ["--tool", "/tool", "--capture", "trace"].map Bytes.ofString, []⟩
    BeginsLine (Bytes.ofString "trace: everything ok\n")
      (run machine (Run.Sample.files "old\n") call Run.Sample.source fun _ => "").output := by
  intro machine call
  let settings : Settings :=
    ⟨false, none, some (Bytes.ofString "/tool"), some (Bytes.ofString "trace"), none, 0⟩
  have hcall : call.invocation = .run settings := by decide
  have hconfig : Config.resolve (Run.Sample.files "old\n") settings = .ok Run.Sample.config := by
    decide
  have houtcome : (Run.compare machine (Run.Sample.files "old\n") Run.Sample.config (.empty none)
      Run.Sample.source).result = .ok .passed := by decide
  obtain ⟨created, program, hcreate, hfind, -, -, hbegins⟩ :=
    verdict_begins_line_iff hcall rfl hconfig houtcome fun _ => ""
  cases hcreate
  cases hfind
  exact hbegins.mpr (Or.inr (by decide))

/-- A decoder that does not end its last line has the verdict behind what it printed there. -/
theorem verdict_behind_unended_output :
    let machine := Run.Sample.machine [.print (Bytes.ofString "old")]
    let call : Call := ⟨none, ["--tool", "/tool", "--capture", "trace"].map Bytes.ofString, []⟩
    let seen := run machine (Run.Sample.files "old") call Run.Sample.source fun _ => ""
    seen.output = Bytes.ofString "oldtrace: everything ok\n" ∧
      ¬ BeginsLine (Bytes.ofString "trace: everything ok\n") seen.output := by
  intro machine call seen
  have houtput : seen.output = Bytes.ofString "old" ++ Bytes.ofString "trace: everything ok\n" := by
    decide
  refine ⟨houtput.trans (by decide), ?_⟩
  rw [houtput, beginsLine_append_iff]
  decide

end GoldenHarness.CommandLine

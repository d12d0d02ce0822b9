import GoldenHarness.Proofs.Diff.Golden
import GoldenHarness.Proofs.Run.Copying
import GoldenHarness.Proofs.Transient.Creation
import GoldenHarness.Run.Compare
import GoldenHarness.Tool.Script

/-!
# What a comparison tells and what it leaves behind

A comparison goes through four stages, each of which can fail: the transient file is created, the
decoder runs, the golden file is read, and the transient file is read back. Its result is settled by
the first stage that fails, and by the bytes if none does. Whatever the result, closing the transient
file leaves the files as they would be without it.
-/

namespace GoldenHarness.Run

variable {m : Machine} {fs : FileSystem} {c : Config} {echo : Writer} {names : NameSource}
  {created : Transient.Created} {program : Program}

/-! ## The stages -/

/-- Without a transient file there is no comparison, and nothing changes. -/
theorem compare_of_create_error {e : IoError}
    (h : Transient.create fs c.scratchDir c.label names = .error e) :
    compare m fs c echo names = { result := .error (.io e), echo, files := fs, journal := [] } := by
  unfold compare
  rw [h]

/-- With a transient file, the decoder runs and is judged, and then the transient file is closed. -/
theorem compare_of_create (h : Transient.create fs c.scratchDir c.label names = .ok created) :
    compare m fs c echo names =
      let judged := judge m created.files c echo created.transient
      let closed := close judged.files created.transient
      { judged with
        files := closed.1
        journal := .event (.createdTransient created.transient.path) :: judged.journal ++
          [.event closed.2] } := by
  unfold compare
  rw [h]

/-- What a comparison can go by once the decoder has ended. -/
structure Evidence where
  /-- How the decoder ended. -/
  status : ExitStatus
  /-- What there is to read in the golden file. -/
  golden : Except Failure Bytes
  /-- Whether the transient file is still there. -/
  isKept : Bool
  /-- All that the decoder printed. -/
  output : Bytes

/-- The result that a comparison of the files at two paths comes to by its evidence. A decoder that
failed counts first, then a golden file that cannot be read, then a transient file that is gone, and
then the bytes. -/
inductive Finding (golden transient : Path) (e : Evidence) : Except RunError Outcome → Prop where
  | toolFailed (hfailed : ¬ e.status.isSuccess) :
      Finding golden transient e (.ok (.toolFailed e.status.code?))
  | goldenUnread {cause : Failure} (hok : e.status.isSuccess) (hgolden : e.golden = .error cause) :
      Finding golden transient e (.error (.goldenRead golden cause))
  | transientGone {expected : Bytes} (hok : e.status.isSuccess) (hgolden : e.golden = .ok expected)
      (hgone : ¬ e.isKept) : Finding golden transient e (.error (.io (.ofFailure .notFound)))
  | passed (hok : e.status.isSuccess) (hkept : e.isKept) (hgolden : e.golden = .ok e.output) :
      Finding golden transient e (.ok .passed)
  | mismatch {expected : Bytes} {diff : String} (hok : e.status.isSuccess) (hkept : e.isKept)
      (hgolden : e.golden = .ok expected) (hne : expected ≠ e.output)
      (hdiff : Diff.golden expected e.output (Path.display golden) (Path.display transient) =
        some diff) : Finding golden transient e (.ok (.mismatch diff))

/-- Evidence leaves no choice between two results. -/
theorem Finding.unique {golden transient : Path} {e : Evidence} {r s : Except RunError Outcome}
    (hr : Finding golden transient e r) (hs : Finding golden transient e s) : r = s := by
  cases hr <;> cases hs <;> simp_all

/-- The result of a comparison whose decoder can be started and whose echo has room, and the echo. -/
theorem result_of_create (hcreate : Transient.create fs c.scratchDir c.label names = .ok created)
    (hfind : m.find created.files c.tool c.toolArgs = .ok program)
    (hecho : echo.accepts (program c.toolArgs created.files).output) :
    let run := program c.toolArgs created.files
    (compare m fs c echo names).echo = echo.write run.output ∧
      (compare m fs c echo names).result =
        if run.status.isSuccess then
          verdict (created.transient.append (run.filesLeft created.files) run.output) c.golden
            created.transient
        else .ok (.toolFailed run.status.code?) := by
  obtain ⟨hresult, hechoed, hsunk, hfiles⟩ :=
    tee_of_accepts hfind hecho (Writer.accepts_empty_none _)
  have hwritten : (tee m created.files c.tool c.toolArgs echo (.empty none)).sink.written =
      (program c.toolArgs created.files).output := by
    rw [hsunk, Writer.written_write (Writer.accepts_empty_none _)]
    rfl
  simp only [compare_of_create hcreate, judge, hresult, hwritten, hfiles]
  split <;> exact ⟨hechoed, rfl⟩

/-- A comparison whose decoder cannot be started. -/
theorem result_of_find_error {cause : Failure}
    (hcreate : Transient.create fs c.scratchDir c.label names = .ok created)
    (hfind : m.find created.files c.tool c.toolArgs = .error cause) :
    (compare m fs c echo names).echo = echo ∧
      (compare m fs c echo names).result = .error (.spawn c.tool cause) := by
  obtain ⟨hresult, hechoed, -, -⟩ := tee_of_find_error hfind echo (.empty none)
  simp only [compare_of_create hcreate, judge, hresult]
  exact ⟨hechoed, trivial⟩

namespace Sample

/-- A machine on which every executable file is the same scripted decoder. -/
def machine (steps : List Script.Step) : Machine := ⟨[], fun _ => some (Script.program steps)⟩

/-- The root directory is the working directory. -/
def files (expected : String) : FileSystem where
  workingDirectory := []
  entries := [([Bytes.ofString "tool"], .file [] true),
    ([Bytes.ofString "trace.ok"], .file (Bytes.ofString expected) false)]

/-- The decoder replays a capture whose golden file is next to it. -/
def config : Config := .ofCapture (Bytes.ofString "/tool") (Bytes.ofString "trace")

/-- The same name over and over. -/
def source : NameSource := fun _ => Bytes.ofString "abcdef"

/-- The transient file of a comparison in the workspace. -/
def transient : Transient :=
  ⟨Bytes.ofString "/./.trace.abcdef.log", [Bytes.ofString ".trace.abcdef.log"]⟩

/-- The workspace once that transient file is created. -/
def withTransient (expected : String) : Transient.Created where
  transient := transient
  files := (files expected).insert transient.location (.file [] false)
  draws := 1

end Sample

/-- Closing a transient file removes it and nothing else, whatever was added to it, and also if it is
gone already. -/
theorem close_append {t : Transient} {left : FileSystem}
    (h : left.lookup t.location ≠ some .directory) (output : Bytes) :
    (close (t.append left output) t).1 = left.erase t.location := by
  cases hthere : left.lookup t.location with
  | none =>
    have hremove : t.remove left = .error ⟨.notFound, some t.path⟩ := by
      rw [Transient.remove, FileSystem.removeAt, hthere]
      rfl
    rw [Transient.append, FileSystem.appendAt, hthere, close, hremove,
      FileSystem.erase_of_lookup_none hthere]
  | some node =>
    cases node with
    | directory => exact absurd hthere h
    | file content x =>
      have hfile : (left.insert t.location (.file (content ++ output) x)).lookup t.location =
          some (.file (content ++ output) x) := by
        rw [FileSystem.lookup_insert h, if_pos rfl]
      have hremove : t.remove (left.insert t.location (.file (content ++ output) x)) =
          .ok (left.erase t.location) := by
        rw [Transient.remove, FileSystem.removeAt, hfile,
          ← left.erase_insert_self t.location (.file (content ++ output) x)]
        rfl
      rw [Transient.append, FileSystem.appendAt, hthere, close, hremove]

/-- Whatever becomes of a run, what was teed is added to the files that the decoder left, and nothing
else changes them. -/
theorem files_judge (t : Transient) :
    (judge m fs c echo t).files =
      t.append (tee m fs c.tool c.toolArgs echo (.empty none)).files
        (tee m fs c.tool c.toolArgs echo (.empty none)).sink.written := by
  unfold judge
  dsimp only
  split
  · rfl
  · split <;> rfl

/-- The files after a comparison are those that the decoder left, without the transient file. -/
theorem files_compare (hcreate : Transient.create fs c.scratchDir c.label names = .ok created)
    {left : FileSystem} (hleft : (tee m created.files c.tool c.toolArgs echo (.empty none)).files = left)
    (hdir : left.lookup created.transient.location ≠ some .directory) :
    (compare m fs c echo names).files = left.erase created.transient.location := by
  rw [compare_of_create hcreate]
  show (close (judge m created.files c echo created.transient).files created.transient).1 = _
  rw [files_judge, hleft, close_append hdir]

end GoldenHarness.Run

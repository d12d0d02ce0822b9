import GoldenHarness.Proofs.Run.Comparison
import GoldenHarness.Proofs.Run.Generation

/-!
# The golden file is written before anything is echoed

A generation goes through its stages in one order. What it leaves behind tells how far it got: files
that are as they were, files that are as the decoder left them, or a golden file with the whole output.
Only in the last case there is something in the echo, which may be less than all.
-/

namespace GoldenHarness

/-! ## What a limit allows -/

namespace Writer

/-- As much of some bytes is taken as a limit allows. -/
structure TakesUpTo (limit : Option Nat) (bs taken : Bytes) : Prop where
  /-- What is taken is a beginning of the bytes. -/
  isPrefix : taken <+: bs
  /-- It keeps to the limit. -/
  fits : ∀ n ∈ limit, taken.length ≤ n
  /-- No other beginning that does so is longer. -/
  longest : ∀ other, other <+: bs → (∀ n ∈ limit, other.length ≤ n) → other <+: taken

theorem takesUpTo_write (limit : Option Nat) (bs : Bytes) :
    TakesUpTo limit bs ((empty limit).write bs).written := by
  have hwritten : ((empty limit).write bs).written = (empty limit).fitting bs := List.nil_append _
  rw [hwritten]
  cases limit with
  | none => exact ⟨List.prefix_rfl, nofun, fun _ hother _ => hother⟩
  | some n =>
    have hfitting : (empty (some n)).fitting bs = bs.take n := rfl
    rw [hfitting]
    refine ⟨List.take_prefix n bs, ?_, fun other hother hfits => ?_⟩
    · rintro _ ⟨⟩
      exact List.length_take_le n bs
    · exact List.prefix_take_iff.mpr ⟨hother, hfits n rfl⟩

theorem accepts_iff_written {limit : Option Nat} {bs : Bytes} :
    (empty limit).accepts bs ↔ ((empty limit).write bs).written = bs := by
  constructor
  · intro h
    rw [written_write h]
    rfl
  · intro h
    rw [accepts_empty_iff]
    have hfits := (takesUpTo_write limit bs).fits
    rwa [h] at hfits

end Writer

/-! ## Paths of files that can be written -/

namespace FileSystem

variable {fs : FileSystem} {p : Path}

/-- A file can be written under a path: the path leads to a file or to a free name, and does not ask
for a directory by a slash at its end. -/
def IsWritable (fs : FileSystem) (p : Path) : Prop :=
  p.getLast? ≠ some Path.slash ∧ ∃ loc, fs.target? p = some loc ∧ fs.lookup loc ≠ some .directory

theorem write_isOk_iff {content : Bytes} :
    (∃ fs', fs.write p content = .ok fs') ↔ fs.IsWritable p := by
  constructor
  · rintro ⟨fs', h⟩
    obtain ⟨loc, htarget, hdir, -⟩ := write_eq_ok h
    exact ⟨getLast?_of_write h, loc, htarget, hdir⟩
  · rintro ⟨hlast, loc, htarget, hdir⟩
    -- the path leads to a file, which is replaced, or to a free name, which is taken
    rw [write, if_neg fun hslash => hlast hslash.1]
    unfold target? at htarget
    split at htarget
    · next node hfound =>
      cases htarget
      rw [lookup_of_locate_found hfound] at hdir
      cases node with
      | directory => exact absurd rfl hdir
      | file old x => exact ⟨_, by rw [hfound]⟩
    · next hfree =>
      cases htarget
      exact ⟨_, by rw [hfree]⟩
    · cases htarget

end FileSystem

namespace Run

variable {m : Machine} {fs : FileSystem} {c : Config} {program : Program}

theorem generate_of_not_writable (hfind : m.find fs c.tool c.toolArgs = .ok program)
    (hgolden : ¬ ((program c.toolArgs fs).filesLeft fs).IsWritable c.golden) (echo : Writer) :
    (∃ cause, (generate m fs c echo).result = .error (.goldenWrite c.golden cause)) ∧
      (generate m fs c echo).files = (program c.toolArgs fs).filesLeft fs ∧
      (generate m fs c echo).echo = echo := by
  cases hwrite : ((program c.toolArgs fs).filesLeft fs).write c.golden
      (program c.toolArgs fs).output with
  | ok files => exact absurd (FileSystem.write_isOk_iff.mp ⟨files, hwrite⟩) hgolden
  | error cause =>
    obtain ⟨hresult, hecho, hfiles⟩ := generate_of_write_error hfind hwrite echo
    exact ⟨⟨cause, hresult⟩, hfiles, hecho⟩

theorem files_generate_of_writable (hfind : m.find fs c.tool c.toolArgs = .ok program)
    (hgolden : ((program c.toolArgs fs).filesLeft fs).IsWritable c.golden) (echo : Writer) :
    let left := (program c.toolArgs fs).filesLeft fs
    (generate m fs c echo).files.read c.golden = .ok (program c.toolArgs fs).output ∧
      ∃ loc, left.target? c.golden = some loc ∧
        ∀ other, other ≠ loc → (generate m fs c echo).files.lookup other = left.lookup other := by
  obtain ⟨files, hwrite⟩ := FileSystem.write_isOk_iff.mpr hgolden
  obtain ⟨-, -, hfiles⟩ := generate_of_write hfind hwrite echo
  obtain ⟨loc, htarget, hdir, hinsert⟩ := FileSystem.write_eq_ok hwrite
  rw [hfiles]
  refine ⟨FileSystem.read_of_write hwrite, loc, htarget, fun other hother => ?_⟩
  rw [hinsert, FileSystem.lookup_insert hdir, if_neg hother]

/-- Once the golden file is written, the echo takes what it can, and the result tells whether that is
all. -/
theorem echo_generate_of_writable (hfind : m.find fs c.tool c.toolArgs = .ok program)
    (hgolden : ((program c.toolArgs fs).filesLeft fs).IsWritable c.golden) (echoLimit : Option Nat) :
    let run := program c.toolArgs fs
    let shown := Report.bracketed run.output
    let done := generate m fs c (.empty echoLimit)
    Writer.TakesUpTo echoLimit shown done.echo.written ∧
      done.result = if done.echo.written = shown then .ok ⟨run.output.length, run.status⟩
        else .error writerFull := by
  obtain ⟨files, hwrite⟩ := FileSystem.write_isOk_iff.mpr hgolden
  obtain ⟨hresult, hecho, -⟩ := generate_of_write hfind hwrite (.empty echoLimit)
  dsimp only
  rw [hecho, hresult]
  refine ⟨Writer.takesUpTo_write echoLimit _, ?_⟩
  simp only [Writer.accepts_iff_written]

/-- A generation has its effects in one order. If the decoder cannot be started, nothing changes. If it
ran but the golden file cannot be written, the files are as the decoder left them. Otherwise the golden
file holds all of the output, whatever the status of the decoder, and only then the output is echoed,
as far as there is room; the result is that of the decoder if there was room for all of it, and an I/O
error if not. So whoever has seen a byte of the echo finds the whole output in the golden file. -/
theorem generate_writes_before_echo (m : Machine) (fs : FileSystem) (c : Config)
    (echoLimit : Option Nat) :
    let done := generate m fs c (.empty echoLimit)
    (∀ cause, m.find fs c.tool c.toolArgs = .error cause →
      done.result = .error (.spawn c.tool cause) ∧ done.files = fs ∧ done.echo.written = []) ∧
    ∀ program, m.find fs c.tool c.toolArgs = .ok program →
      let run := program c.toolArgs fs
      let left := run.filesLeft fs
      let shown := Report.bracketed run.output
      (¬ left.IsWritable c.golden →
        (∃ cause, done.result = .error (.goldenWrite c.golden cause)) ∧ done.files = left ∧
          done.echo.written = []) ∧
      (left.IsWritable c.golden →
        (done.files.read c.golden = .ok run.output ∧
          ∃ loc, left.target? c.golden = some loc ∧
            ∀ other, other ≠ loc → done.files.lookup other = left.lookup other) ∧
        Writer.TakesUpTo echoLimit shown done.echo.written ∧
        (done.echo.written = shown → done.result = .ok ⟨run.output.length, run.status⟩) ∧
        (done.echo.written ≠ shown → ∃ cause, done.result = .error (.io cause))) ∧
      (done.echo.written ≠ [] → done.files.read c.golden = .ok run.output) := by
  intro done
  constructor
  · intro cause hfind
    obtain ⟨hresult, hecho, hfiles⟩ := generate_of_find_error hfind (.empty echoLimit)
    exact ⟨hresult, hfiles, by rw [hecho, Writer.written_empty]⟩
  · intro program hfind run left shown
    -- the echo has a byte only in the first case, in which the golden file is written already
    by_cases hgolden : left.IsWritable c.golden
    · have hfiles := files_generate_of_writable hfind hgolden (.empty echoLimit)
      obtain ⟨htaken, hresult⟩ := echo_generate_of_writable hfind hgolden echoLimit
      refine ⟨fun hnot => absurd hgolden hnot, fun _ => ⟨hfiles, htaken, fun hall => ?_, fun hpart => ?_⟩,
        fun _ => hfiles.1⟩
      · rwa [if_pos hall] at hresult
      · rw [if_neg hpart] at hresult
        exact ⟨_, hresult⟩
    · obtain ⟨hresult, hfiles, hecho⟩ := generate_of_not_writable hfind hgolden (.empty echoLimit)
      have hempty : done.echo.written = [] := by rw [hecho, Writer.written_empty]
      exact ⟨fun _ => ⟨hresult, hfiles, hempty⟩, fun h => absurd h hgolden, fun hne => absurd hempty hne⟩

/-- An echo with room for three bytes: the golden file is replaced although the generation fails. -/
theorem generate_of_three_bytes :
    let m := Sample.machine [.print (Bytes.ofString "new\n"), .exit 3]
    let done := generate m (Sample.files "old\n") Sample.config (.empty (some 3))
    done.files.read (Bytes.ofString "trace.ok") = .ok (Bytes.ofString "new\n") ∧
      done.echo.written = Bytes.ofString "---" ∧ ∃ cause, done.result = .error (.io cause) := by
  intro m done
  obtain ⟨-, hrun⟩ := generate_writes_before_echo m (Sample.files "old\n") Sample.config (some 3)
  obtain ⟨-, hwritten, -⟩ := hrun _ rfl
  obtain ⟨⟨hgolden, -⟩, htaken, -, hpart⟩ := hwritten
    ⟨by decide, [Bytes.ofString "trace.ok"], by decide, by decide⟩
  have hdashes : Bytes.ofString "---" <+: done.echo.written :=
    htaken.longest _ (by decide) (by rintro _ ⟨⟩; decide)
  have hechoed := (hdashes.eq_of_length_le (htaken.fits 3 rfl)).symm
  refine ⟨hgolden, hechoed, hpart ?_⟩
  rw [hechoed]
  decide

end Run

end GoldenHarness

import GoldenHarness.Proofs.Run.Comparison
import GoldenHarness.Proofs.Run.Generation
import GoldenHarness.Run.Session

/-!
# What a session leaves behind

Where the decoders of a session change no files of their own accord, the only traces of the session
are the golden files, each with what the last generation onto it printed. Everything else is as it
was, at the end and between any two steps: a comparison takes its transient file away again, and a
generation that cannot start the decoder or write the golden file has done nothing.
-/

namespace GoldenHarness

/-- A run of a decoder that leaves the files as they are, whether it ends or is stopped. -/
def ToolRun.IsQuiet (r : ToolRun) (fs : FileSystem) : Prop :=
  r.entries = fs.entries ∧ ∀ n, r.entriesIfStopped n = fs.entries

namespace Machine

variable {m : Machine} {fs : FileSystem} {program : Program}

theorem load_of_programAt {p : Path} (h : m.programAt fs p = .ok program) :
    ∃ content, m.load content = some program := by
  unfold programAt at h
  split at h
  · cases h
  · cases h
  · cases h
  · cases h
  · next loc content _ =>
    split at h
    · next found hload =>
      cases h
      exact ⟨content, hload⟩
    · cases h

theorem load_of_search {name : Path} {denied : Bool} {dirs : List Path}
    (h : m.search fs name denied dirs = .ok program) : ∃ content, m.load content = some program := by
  induction dirs generalizing denied with
  | nil => cases h
  | cons dir rest ih =>
    rw [search] at h
    split at h
    · exact ih h
    · exact ih h
    · exact ih h
    · exact load_of_programAt h

/-- A program that is found is what some file holds. -/
theorem load_of_find {command : Path} {args : List Bytes} (h : m.find fs command args = .ok program) :
    ∃ content, m.load content = some program := by
  unfold find at h
  split at h
  · cases h
  split at h
  · exact load_of_programAt h
  split at h
  · cases h
  split at h
  · cases h
  · exact load_of_search h

/-- No program of a machine changes files of its own accord. -/
def IsQuiet (m : Machine) : Prop :=
  ∀ content program, m.load content = some program →
    ∀ args fs, (program args fs).IsQuiet fs

end Machine

namespace Run

variable {m : Machine} {fs : FileSystem} {c : Config} {names : NameSource} {step : Step}
  {steps : List Step}

/-! ## Generations -/

/-- Whether an answer is that of a generation which neither failed to start the decoder nor to write
the golden file. -/
def Answer.tellsGolden : Answer → Bool
  | .generated (.error (.spawn ..)) | .generated (.error (.goldenWrite ..)) => false
  | .generated _ => true
  | _ => false

/-- The location that a step generates a golden file at, and all that the decoder prints then. -/
def Step.generation? (s : Step) (fs : FileSystem) : Option (Location × Bytes) :=
  if (s.perform fs).answer.tellsGolden then
    match fs.target? s.config.golden, s.machine.find fs s.config.tool s.config.toolArgs with
    | some loc, .ok program => some (loc, (program s.config.toolArgs fs).output)
    | _, _ => none
  else none

/-- The generations of a session, in order. -/
def generations : FileSystem → List Step → List (Location × Bytes)
  | _, [] => []
  | fs, step :: rest => (step.generation? fs).toList ++ generations (step.perform fs).files rest

/-- The last bytes that are given for a location. -/
def lastOnto (loc : Location) : List (Location × Bytes) → Option Bytes
  | [] => none
  | (here, output) :: rest => (lastOnto loc rest).or (if here = loc then some output else none)

/-! ## Decoders that change no files -/

/-- The files on which the decoder of a step runs: a comparison creates its transient file before. -/
def Step.stage (s : Step) (fs : FileSystem) : FileSystem :=
  match s.action with
  | .compare _ =>
    match Transient.create fs s.config.scratchDir s.config.label s.names with
    | .ok created => created.files
    | .error _ => fs
  | _ => fs

/-- The decoder of a step changes no files of its own accord. -/
def Step.IsQuiet (s : Step) (fs : FileSystem) : Prop :=
  ∀ program, s.machine.find (s.stage fs) s.config.tool s.config.toolArgs = .ok program →
    (program s.config.toolArgs (s.stage fs)).IsQuiet (s.stage fs)

/-- No decoder of a session changes files of its own accord. -/
def AllQuiet : FileSystem → List Step → Prop
  | _, [] => True
  | fs, step :: rest => step.IsQuiet fs ∧ AllQuiet (step.perform fs).files rest

/-- Where no machine has a program that changes files, no session does it. -/
theorem allQuiet_of_machines (fs : FileSystem) (h : ∀ step ∈ steps, step.machine.IsQuiet) :
    AllQuiet fs steps := by
  induction steps generalizing fs with
  | nil => trivial
  | cons step rest ih =>
    refine ⟨fun program hfind => ?_, ih _ fun step' hmem => h step' (List.mem_cons_of_mem _ hmem)⟩
    obtain ⟨content, hload⟩ := Machine.load_of_find hfind
    exact h step (List.mem_cons_self ..) content program hload _ _

theorem filesLeft_of_isQuiet {run : ToolRun} (h : run.IsQuiet fs) : run.filesLeft fs = fs := by
  rw [ToolRun.filesLeft, h.1]

/-- However much of the output of a quiet decoder is copied, the files stay as they are. -/
theorem files_tee_of_isQuiet {command : Path} {args : List Bytes} (echo sink : Writer)
    (h : ∀ program, m.find fs command args = .ok program → (program args fs).IsQuiet fs) :
    (tee m fs command args echo sink).files = fs := by
  unfold tee
  cases hfind : m.find fs command args with
  | error cause => rfl
  | ok program =>
    obtain ⟨hended, hstopped⟩ := h program hfind
    dsimp only
    split
    · rw [hended]
    · rw [hstopped]

/-- A comparison with a quiet decoder changes nothing. -/
theorem files_compare_of_isQuiet {echo : Writer}
    (h : ∀ created, Transient.create fs c.scratchDir c.label names = .ok created →
      ∀ program, m.find created.files c.tool c.toolArgs = .ok program →
        (program c.toolArgs created.files).IsQuiet created.files) :
    (compare m fs c echo names).files = fs := by
  cases hcreate : Transient.create fs c.scratchDir c.label names with
  | error e => rw [compare_of_create_error hcreate]
  | ok created =>
    have hleft := files_tee_of_isQuiet echo (.empty none) (h created hcreate)
    have hdir : created.files.lookup created.transient.location ≠ some .directory := by
      simp [Transient.lookup_create hcreate]
    rw [files_compare hcreate hleft hdir, Transient.erase_create hcreate]

/-- A generation with a quiet decoder writes the golden file and nothing else, or it fails before and
changes nothing. A full echo comes too late to matter. -/
theorem files_generate_of_isQuiet (echo : Writer)
    (h : ∀ program, m.find fs c.tool c.toolArgs = .ok program →
      (program c.toolArgs fs).IsQuiet fs) :
    ((Answer.generated (generate m fs c echo).result).tellsGolden = false ∧
        (generate m fs c echo).files = fs) ∨
      ∃ program loc, m.find fs c.tool c.toolArgs = .ok program ∧ fs.target? c.golden = some loc ∧
        (Answer.generated (generate m fs c echo).result).tellsGolden = true ∧
        fs.lookup loc ≠ some .directory ∧
        (generate m fs c echo).files =
          fs.insert loc (.file (program c.toolArgs fs).output (fs.isExecutableAt loc)) := by
  cases hfind : m.find fs c.tool c.toolArgs with
  | error cause =>
    obtain ⟨hresult, -, hfiles⟩ := generate_of_find_error hfind echo
    left
    rw [hresult]
    exact ⟨rfl, hfiles⟩
  | ok program =>
    have hleft := filesLeft_of_isQuiet (h program hfind)
    cases hwrite : ((program c.toolArgs fs).filesLeft fs).write c.golden
        (program c.toolArgs fs).output with
    | error cause =>
      obtain ⟨hresult, -, hfiles⟩ := generate_of_write_error hfind hwrite echo
      left
      rw [hresult]
      exact ⟨rfl, hfiles.trans hleft⟩
    | ok files =>
      obtain ⟨hresult, -, hfiles⟩ := generate_of_write hfind hwrite echo
      rw [hleft] at hwrite
      obtain ⟨loc, htarget, hdir, hinsert⟩ := FileSystem.write_eq_ok hwrite
      refine Or.inr ⟨program, loc, rfl, htarget, ?_, hdir, hfiles.trans hinsert⟩
      rw [hresult]
      split <;> rfl

/-! ## Steps -/

/-- What a step with a quiet decoder does to the files: it writes the golden file that it generates,
and nothing else. -/
theorem files_perform (hquiet : step.IsQuiet fs) :
    (step.generation? fs = none ∧ (step.perform fs).answer.tellsGolden = false ∧
        (step.perform fs).files = fs) ∨
      ∃ loc output, step.generation? fs = some (loc, output) ∧
        (step.perform fs).answer.tellsGolden = true ∧ fs.lookup loc ≠ some .directory ∧
        (step.perform fs).files = fs.insert loc (.file output (fs.isExecutableAt loc)) := by
  obtain ⟨m, names, c, action⟩ := step
  cases action with
  | generate echoLimit =>
    have hprogram : ∀ program, m.find fs c.tool c.toolArgs = .ok program →
        (program c.toolArgs fs).IsQuiet fs := hquiet
    rcases files_generate_of_isQuiet (.empty echoLimit) hprogram with
      ⟨htells, hfiles⟩ | ⟨program, loc, hfind, htarget, htells, hdir, hfiles⟩
    · exact Or.inl ⟨if_neg (by simp [Step.perform, perform, htells]), htells, hfiles⟩
    · refine Or.inr ⟨loc, (program c.toolArgs fs).output, ?_, htells, hdir, hfiles⟩
      rw [Step.generation?, if_pos (by exact htells)]
      simp only [htarget, hfind]
  | compare echoLimit =>
    refine Or.inl ⟨rfl, rfl, files_compare_of_isQuiet fun created hcreate => ?_⟩
    have hstage : Step.stage ⟨m, names, c, .compare echoLimit⟩ fs = created.files := by
      simp only [Step.stage, hcreate]
    rw [← hstage]
    exact hquiet
  | capture => exact Or.inl ⟨rfl, rfl, files_tee_of_isQuiet _ _ hquiet⟩
  | tee echoLimit sinkLimit => exact Or.inl ⟨rfl, rfl, files_tee_of_isQuiet _ _ hquiet⟩

/-- A step with a quiet decoder changes what is at a location only if it generates a golden file
there. What may be executed stays so. -/
theorem lookup_perform (hquiet : step.IsQuiet fs) (loc : Location) :
    (step.perform fs).files.lookup loc =
        (match lastOnto loc (step.generation? fs).toList with
        | none => fs.lookup loc
        | some output => some (.file output (fs.isExecutableAt loc))) ∧
      (step.perform fs).files.isExecutableAt loc = fs.isExecutableAt loc := by
  rcases files_perform hquiet with ⟨hnone, -, hfiles⟩ | ⟨here, output, hsome, -, hdir, hfiles⟩
  · rw [hnone, hfiles]
    exact ⟨rfl, rfl⟩
  · rw [hsome, hfiles]
    by_cases hhere : here = loc
    · subst hhere
      have hlookup : (fs.insert here (.file output (fs.isExecutableAt here))).lookup here =
          some (.file output (fs.isExecutableAt here)) := by
        rw [FileSystem.lookup_insert hdir, if_pos rfl]
      refine ⟨?_, ?_⟩
      · rw [hlookup]
        simp [lastOnto]
      · exact FileSystem.isExecutableAt_of_lookup hlookup
    · have hlookup : (fs.insert here (.file output (fs.isExecutableAt here))).lookup loc =
          fs.lookup loc := fs.lookup_insert_of_ne _ (Ne.symm hhere)
      refine ⟨?_, ?_⟩
      · rw [hlookup]
        simp [lastOnto, hhere]
      · exact FileSystem.isExecutableAt_congr hlookup

/-! ## Sessions -/

theorem lastOnto_append (loc : Location) (before after : List (Location × Bytes)) :
    lastOnto loc (before ++ after) = (lastOnto loc after).or (lastOnto loc before) := by
  induction before with
  | nil => simp [lastOnto]
  | cons g before ih => rw [List.cons_append, lastOnto, lastOnto, ih, Option.or_assoc]

theorem filesAfter_cons (fs : FileSystem) (step : Step) (rest : List Step) :
    filesAfter fs (step :: rest) = filesAfter (step.perform fs).files rest := rfl

/-- Every step of a quiet session is quiet in the files that it finds. -/
theorem AllQuiet.isQuiet {before after : List Step}
    (h : AllQuiet fs (before ++ step :: after)) : step.IsQuiet (filesAfter fs before) := by
  induction before generalizing fs with
  | nil => exact h.1
  | cons first before ih => exact ih h.2

theorem workingDirectory_filesAfter (hquiet : AllQuiet fs steps) :
    (filesAfter fs steps).workingDirectory = fs.workingDirectory := by
  induction steps generalizing fs with
  | nil => rfl
  | cons step rest ih =>
    obtain ⟨hstep, hrest⟩ := hquiet
    rw [filesAfter_cons, ih hrest]
    rcases files_perform hstep with ⟨-, -, hfiles⟩ | ⟨loc, output, -, -, -, hfiles⟩
    · rw [hfiles]
    · rw [hfiles, FileSystem.workingDirectory_insert]

theorem lookup_filesAfter (hquiet : AllQuiet fs steps) (loc : Location) :
    (filesAfter fs steps).lookup loc =
      match lastOnto loc (generations fs steps) with
      | none => fs.lookup loc
      | some output => some (.file output (fs.isExecutableAt loc)) := by
  induction steps generalizing fs with
  | nil => rfl
  | cons step rest ih =>
    obtain ⟨hstep, hrest⟩ := hquiet
    obtain ⟨hlookup, hexecutable⟩ := lookup_perform hstep loc
    rw [filesAfter_cons, ih hrest, generations, lastOnto_append, hlookup, hexecutable]
    cases lastOnto loc (generations (step.perform fs).files rest) <;> rfl

/-- After a session whose decoders change no files of their own accord, a file at which a golden file
was generated holds what the last generation there printed, and everything else is as it was. The
steps that changed nothing are told by their answers: all that are no generations, and the generations
that could not start the decoder or write the golden file. No transient file is left after a
comparison. A decoder is what the step finds when its turn comes, so a golden file may even take the
place of a decoder. -/
theorem filesAfter_of_allQuiet (fs : FileSystem) (steps : List Step) (hquiet : AllQuiet fs steps) :
    (filesAfter fs steps).workingDirectory = fs.workingDirectory ∧
      (∀ loc, (filesAfter fs steps).lookup loc =
        match lastOnto loc (generations fs steps) with
        | none => fs.lookup loc
        | some output => some (.file output (fs.isExecutableAt loc))) ∧
      ∀ before step after, steps = before ++ step :: after →
        let here := filesAfter fs before
        let done := step.perform here
        ((step.generation? here).isSome = done.answer.tellsGolden) ∧
          (done.answer.tellsGolden = false → done.files = here) ∧
          ∀ echoLimit created, step.action = .compare echoLimit →
            Transient.create here step.config.scratchDir step.config.label step.names =
              .ok created →
            here.lookup created.transient.location = none ∧
              done.files.lookup created.transient.location = none := by
  refine ⟨workingDirectory_filesAfter hquiet, lookup_filesAfter hquiet, ?_⟩
  intro before step after hsteps here done
  rw [hsteps] at hquiet
  have hcases := files_perform hquiet.isQuiet
  refine ⟨?_, fun htells => ?_, fun echoLimit created haction hcreate => ?_⟩
  · rcases hcases with ⟨hnone, htells, -⟩ | ⟨loc, output, hsome, htells, -⟩
    · rw [hnone, htells]
      rfl
    · rw [hsome, htells]
      rfl
  · rcases hcases with ⟨-, -, hfiles⟩ | ⟨loc, output, -, htold, -⟩
    · exact hfiles
    · exact absurd (htells.symm.trans htold) Bool.false_ne_true
  · obtain ⟨hnone, -⟩ := Transient.create_eq_ok hcreate
    have htells : done.answer.tellsGolden = false := by
      simp only [done, Step.perform, perform, haction, Answer.tellsGolden]
    rcases hcases with ⟨-, -, hfiles⟩ | ⟨loc, output, -, htold, -⟩
    · exact ⟨hnone, by rw [show done.files = here from hfiles, hnone]⟩
    · exact absurd (htells.symm.trans htold) Bool.false_ne_true

/-- A decoder that only prints. -/
def Sample.printing (text : String) (status : Nat) : Machine :=
  Sample.machine [.print (Bytes.ofString text), .exit status]

theorem Sample.isQuiet_printing (text : String) (status : Nat) :
    (Sample.printing text status).IsQuiet := by
  intro content program hload args fs
  cases hload
  exact ⟨rfl, fun _ => rfl⟩

/-- Steps of which the third is the last one to write the golden file: the echo of the first and of
the third is full, the second is a comparison, and the fourth generates into a directory that is not
there. -/
def Sample.session : List Step :=
  [⟨Sample.printing "one" 0, Sample.source, Sample.config, .generate (some 0)⟩,
    ⟨Sample.printing "two" 0, Sample.source, Sample.config, .compare (some 1)⟩,
    ⟨Sample.printing "three" 2, Sample.source, Sample.config, .generate (some 0)⟩,
    ⟨Sample.printing "four" 0, Sample.source,
      Sample.config.withGolden (Bytes.ofString "none/trace.ok"), .generate none⟩]

/-- The last generation that wrote the golden file decides what it holds, whatever failed. -/
theorem lookup_golden_after_session :
    (filesAfter (Sample.files "old\n") Sample.session).lookup [Bytes.ofString "trace.ok"] =
      some (.file (Bytes.ofString "three") false) := by
  have hquiet : ∀ step ∈ Sample.session, step.machine.IsQuiet := by
    simp [Sample.session, Sample.isQuiet_printing]
  obtain ⟨-, hlookup, -⟩ := filesAfter_of_allQuiet (Sample.files "old\n") Sample.session
    (allQuiet_of_machines _ hquiet)
  rw [hlookup]
  decide

end Run

end GoldenHarness

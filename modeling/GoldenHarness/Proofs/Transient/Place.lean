import GoldenHarness.Proofs.Path.Steps
import GoldenHarness.Proofs.Run.Comparison
import GoldenHarness.Proofs.Text.Encoding
import GoldenHarness.Proofs.Transient.Turns

/-!
# Where a transient file is

What a transient file is for goes into its name as it is. So the file is a direct entry of the
directory that it is created in as long as that has no slash; otherwise the name is a path, which leads
on from there. The label of a configuration has no slash if the capture has a file name. A capture
without one is labelled with its whole path.
-/

namespace GoldenHarness

/-! ## Labels -/

theorem slash_mem_toStringLossy_iff {bs : Bytes} :
    '/' ∈ (Bytes.toStringLossy bs).toList ↔ Path.slash ∈ bs := by
  rw [Bytes.toStringLossy, String.toList_ofList]
  exact Utf8.mem_decodeLossy_iff (b := Path.slash) (by decide)

theorem slash_mem_ofString_iff {s : String} : Path.slash ∈ Bytes.ofString s ↔ '/' ∈ s.toList :=
  Utf8.mem_encode_iff (b := Path.slash) (by decide)

/-- The label of a configuration has a slash if and only if its capture has no file name but a
slash. -/
theorem Config.slash_mem_label_iff (c : Config) :
    '/' ∈ c.label.toList ↔ Path.fileName? c.capture = none ∧ Path.slash ∈ c.capture := by
  unfold label
  split
  · next name hname =>
    rw [slash_mem_toStringLossy_iff, hname]
    simp [Path.slash_not_mem_of_fileName? hname]
  · next hname =>
    rw [Path.display, slash_mem_toStringLossy_iff, hname]
    simp

/-! ## Names of transient files -/

/-- The names of a source are six ASCII letters or digits each. -/
def NameSource.IsSixCharacters (names : NameSource) : Prop :=
  ∀ i, (names i).length = 6 ∧ ∀ b ∈ names i, b < 0x80 ∧ (Char.ofNat b.toNat).isAlphanum

theorem NameSource.IsSixCharacters.slash_not_mem {names : NameSource} (h : names.IsSixCharacters)
    (i : Nat) : Path.slash ∉ names i := fun hmem =>
  absurd ((h i).2 _ hmem).2 (by decide)

namespace Transient

variable {fs : FileSystem} {dir : Path} {stem : String} {names : NameSource} {created : Created}
  {drawn : Bytes}

theorem fileName_eq (stem : String) (drawn : Bytes) :
    fileName stem drawn = 0x2E :: (Bytes.ofString stem ++ 0x2E :: ending drawn) := by
  have hdot : Bytes.ofString "." = [0x2E] := by decide
  have hname : fileName stem drawn = Bytes.ofString ("." ++ stem ++ ".") ++ drawn ++
      Bytes.ofString ".log" := rfl
  rw [hname, ending, Bytes.ofString_append, Bytes.ofString_append, hdot]
  simp

theorem not_isAbsolute_fileName (stem : String) (drawn : Bytes) :
    ¬ Path.isAbsolute (fileName stem drawn) := by
  rw [fileName_eq, Path.isAbsolute, List.head?_cons]
  decide

/-- The name of a transient file has the slashes of what it is called after. -/
theorem slash_mem_fileName_iff (hdrawn : Path.slash ∉ drawn) :
    Path.slash ∈ fileName stem drawn ↔ '/' ∈ stem.toList := by
  have hdot : Path.slash ≠ 0x2E := by decide
  rw [fileName_eq, ← slash_mem_ofString_iff]
  simp [hdot, slash_not_mem_ending hdrawn]

/-- What follows the last slash of the name of a transient file is a name, and stands neither for its
directory nor for the one above. -/
theorem leaf_fileName (stem : String) (hdrawn : Path.slash ∉ drawn) :
    ¬ Path.isBlank (Path.leaf (fileName stem drawn)) ∧
      Path.leaf (fileName stem drawn) ≠ Path.dotDot := by
  -- four bytes or more follow the last slash whatever the stem is, since the ending has none
  have hsuffix : ending drawn <:+ Path.leaf (fileName stem drawn) := by
    refine Path.suffix_leaf ?_ (slash_not_mem_ending hdrawn)
    rw [fileName_eq]
    exact ⟨0x2E :: (Bytes.ofString stem ++ [0x2E]), by simp⟩
  have hlength : 4 ≤ (Path.leaf (fileName stem drawn)).length := by
    have hlog : (Bytes.ofString ".log").length = 4 := by decide
    have hle := hsuffix.length_le
    rw [ending, List.length_append, hlog] at hle
    omega
  constructor
  · intro hblank
    rcases of_decide_eq_true hblank with heq | heq <;> simp [heq, Path.dot] at hlength
  · intro heq
    simp [heq, Path.dotDot] at hlength

/-! ## Places of transient files -/

theorem join_workingPath_ne_nil (fs : FileSystem) (dir : Path) : Path.join fs.workingPath dir ≠ [] := by
  have hworking : fs.workingPath ≠ [] := by
    unfold FileSystem.workingPath FileSystem.pathOf
    split
    · exact List.cons_ne_nil _ _
    · next hne =>
      obtain ⟨name, rest, hloc⟩ := List.exists_cons_of_ne_nil hne
      rw [hloc, List.flatMap_cons, List.cons_append]
      exact List.cons_ne_nil _ _
  unfold Path.join
  split
  · next habsolute =>
    rintro rfl
    cases habsolute
  · split
    · exact List.append_ne_nil_of_left_ne_nil hworking _
    · exact List.append_ne_nil_of_left_ne_nil hworking _

/-- A transient file is an entry of the directory that its name goes to with the last slash. -/
theorem isEntryOf_of_create (hnames : names.IsSixCharacters)
    (h : create fs dir stem names = .ok created) :
    let base := Path.join fs.workingPath dir
    let loc := created.transient.location
    ∃ i,
      let name := fileName stem (names i)
      created.transient.path = Path.join base name ∧
        created.files.IsEntryOf loc (Path.join base (Path.folder name)) (Path.leaf name) ∧
        ('/' ∉ stem.toList → created.files.IsEntryOf loc base name) := by
  intro base loc
  obtain ⟨i, -, -, hpath⟩ := createFrom_path_eq h
  obtain ⟨hfree, hfiles⟩ := FileSystem.createNew_eq_ok (createFrom_eq_ok h)
  have hnone := FileSystem.lookup_of_locate_free hfree
  have hdrawn := hnames.slash_not_mem i
  obtain ⟨hblank, hparent⟩ := leaf_fileName stem hdrawn
  rw [hpath] at hfree
  obtain ⟨hentry, hdirect⟩ := FileSystem.isEntryOf_of_locate_join (join_workingPath_ne_nil fs dir)
    (not_isAbsolute_fileName stem (names i)) hblank hparent hfree
  refine ⟨i, hpath, ?_, fun hslash => ?_⟩
  · rw [hfiles]
    exact hentry.insert hnone _
  · rw [← slash_mem_fileName_iff hdrawn] at hslash
    rw [hfiles]
    exact (hdirect hslash).insert hnone _

end Transient

namespace Run

variable {fs : FileSystem} {dir : Path} {stem : String} {names : NameSource}
  {created : Transient.Created}

/-- A transient file is where its name leads from the directory that it is created in. It is a direct
entry of that directory if and only if the stem has no slash. So the transient file of a comparison is
one of the scratch directory if and only if the capture has a file name, or no slash either. -/
theorem place_of_transient (hnames : names.IsSixCharacters)
    (h : Transient.create fs dir stem names = .ok created) :
    let base := Path.join fs.workingPath dir
    let loc := created.transient.location
    created.files.lookup loc = some (.file [] false) ∧
      (∃ i,
        let name := Transient.fileName stem (names i)
        created.transient.path = Path.join base name ∧
          created.files.IsEntryOf loc (Path.join base (Path.folder name)) (Path.leaf name)) ∧
      ((∃ i, created.files.IsEntryOf loc base (Transient.fileName stem (names i))) ↔
        '/' ∉ stem.toList) ∧
      ∀ (m : Machine) (c : Config) (echo : Writer), c.scratchDir = dir → c.label = stem →
        (compare m fs c echo names).journal.head? =
            some (.event (.createdTransient created.transient.path)) ∧
          ((∃ i, created.files.IsEntryOf loc base (Transient.fileName c.label (names i))) ↔
            (Path.fileName? c.capture).isSome ∨ Path.slash ∉ c.capture) := by
  intro base loc
  obtain ⟨i, hpath, hentry, hdirect⟩ := Transient.isEntryOf_of_create hnames h
  have hiff : (∃ i, created.files.IsEntryOf loc base (Transient.fileName stem (names i))) ↔
      '/' ∉ stem.toList := by
    refine ⟨fun ⟨j, hj⟩ => ?_, fun hslash => ⟨i, hdirect hslash⟩⟩
    rw [← Transient.slash_mem_fileName_iff (hnames.slash_not_mem j), hj.name_eq hentry]
    exact Path.slash_not_mem_leaf _
  refine ⟨by rw [Transient.lookup_create h, if_pos rfl], ⟨i, hpath, hentry⟩, hiff, ?_⟩
  rintro m c echo rfl rfl
  refine ⟨?_, ?_⟩
  · rw [compare_of_create h]
    rfl
  · rw [hiff, Config.slash_mem_label_iff, not_and_or, ← ne_eq, Option.ne_none_iff_isSome]

theorem Sample.isSixCharacters_source : Sample.source.IsSixCharacters := by
  intro i
  have hname : Bytes.ofString "abcdef" = [0x61, 0x62, 0x63, 0x64, 0x65, 0x66] := by decide
  rw [Sample.source, hname]
  refine ⟨rfl, ?_⟩
  simp only [List.forall_mem_cons, List.not_mem_nil, false_implies, implies_true, and_true]
  decide

/-- The file name of a capture keeps the transient file in the scratch directory. -/
theorem place_in_workspace :
    Sample.source.IsSixCharacters ∧
      Transient.create (Sample.files "old\n") Sample.config.scratchDir Sample.config.label Sample.source =
        .ok (Sample.withTransient "old\n") ∧
      (Sample.withTransient "old\n").files.IsEntryOf Sample.transient.location
        (Bytes.ofString "/.") (Bytes.ofString ".trace.abcdef.log") := by
  have hcreate : Transient.create (Sample.files "old\n") Sample.config.scratchDir Sample.config.label
      Sample.source = .ok (Sample.withTransient "old\n") := rfl
  refine ⟨Sample.isSixCharacters_source, hcreate, ?_⟩
  obtain ⟨-, -, -, hconfig⟩ := place_of_transient Sample.isSixCharacters_source hcreate
  obtain ⟨-, hentry⟩ := hconfig (Sample.machine []) Sample.config (.empty none) rfl rfl
  obtain ⟨_, hdirect⟩ := hentry.mpr (Or.inl rfl)
  exact hdirect

/-- A workspace whose scratch directory has a hidden directory. -/
def Sample.nested : FileSystem where
  workingDirectory := []
  entries := [([Bytes.ofString "scratch"], .directory),
    ([Bytes.ofString "scratch", Bytes.ofString ".sub"], .directory)]

/-- A transient file in the hidden directory. -/
def Sample.hidden : Transient :=
  ⟨Bytes.ofString "/scratch/.sub/...abcdef.log",
    [Bytes.ofString "scratch", Bytes.ofString ".sub", Bytes.ofString "...abcdef.log"]⟩

/-- The workspace once that transient file is created. -/
def Sample.withHidden : Transient.Created where
  transient := hidden
  files := nested.insert hidden.location (.file [] false)
  draws := 1

/-- A configuration whose capture has no file name. -/
def Sample.unnamed : Config :=
  { config with capture := Bytes.ofString "sub/..", scratchDir := Bytes.ofString "scratch" }

/-- The whole path of a capture without a file name leads out of the scratch directory. -/
theorem place_below_scratch_dir :
    Transient.create Sample.nested Sample.unnamed.scratchDir Sample.unnamed.label Sample.source =
        .ok Sample.withHidden ∧
      ∀ name, ¬ Sample.withHidden.files.IsEntryOf Sample.withHidden.transient.location
        (Path.join Sample.nested.workingPath Sample.unnamed.scratchDir) name := by
  refine ⟨by decide, ?_⟩
  rintro name ⟨here, hdir, hloc⟩
  have hscratch : Sample.withHidden.files.locate
      (Path.join Sample.nested.workingPath Sample.unnamed.scratchDir) =
        .ok (.found [Bytes.ofString "scratch"] .directory) := by
    decide
  rw [hscratch] at hdir
  cases hdir
  exact absurd (congrArg List.length hloc) (by simp [Sample.withHidden, Sample.hidden])

end Run

end GoldenHarness

import GoldenHarness.Proofs.Path.Steps

/-!
# Files seen from a working directory

The same files can be seen from two working directories. A relative path leads from one of them where
the path that is taken from this directory leads from the other, unless that gets too long.
-/

namespace GoldenHarness.FileSystem

variable {fs fs' : FileSystem}

/-- The same files are there, and the working directory is the one that a path leads to. -/
structure SeenFrom (fs : FileSystem) (dir : Path) (fs' : FileSystem) : Prop where
  /-- At each location there is the same. -/
  lookup_eq : ∀ loc, fs'.lookup loc = fs.lookup loc
  /-- The path of the working directory. -/
  locate_eq : fs.locate dir = .ok (.found fs'.workingDirectory .directory)

/-- What is seen from the root is seen from each directory that is there with all above it. -/
theorem seenFrom_of_root {dir : Path} {there : Location} (hroot : fs.workingDirectory = [])
    (habove : ∀ n ≤ there.length, fs.lookup (there.take n) = some .directory)
    (hdir : fs.locate dir = .ok (.found there .directory)) :
    fs.SeenFrom dir { fs with workingDirectory := there } := by
  refine ⟨fun loc => ?_, hdir⟩
  by_cases hloc : loc <+: there
  · have hthere := habove loc.length hloc.length_le
    rw [← List.prefix_iff_eq_take.mp hloc] at hthere
    rw [hthere]
    exact lookup_above hloc
  · have hne : ¬ loc <+: [] := by
      rw [List.prefix_nil]
      rintro rfl
      exact hloc List.nil_prefix
    rw [lookup, lookup, hroot, if_neg, if_neg]
    · rwa [List.isPrefixOf_iff_prefix]
    · rwa [List.isPrefixOf_iff_prefix]

theorem walk_congr (h : ∀ loc, fs'.lookup loc = fs.lookup loc) (here : Location) (parts : List Bytes) :
    fs'.walk here parts = fs.walk here parts := by
  induction parts generalizing here with
  | nil => rw [walk_nil_eq, walk_nil_eq, h]
  | cons part rest ih => simp only [walk_cons_eq, h, ih]

/-- A slash at the end asks for a directory, and leads to the same. -/
theorem walk_of_append_nil {here there : Location} {parts : List Bytes} {node : Node}
    (h : fs.walk here (parts ++ [[]]) = .ok (.found there node)) :
    fs.walk here parts = .ok (.found there .directory) := by
  -- on the ways of the walk; the empty part comes last, and the walk passes it without a look
  rw [walk_eq_ok_iff] at h ⊢
  generalize hplace : Place.found there node = place at h
  generalize hparts : parts ++ [[]] = whole at h
  induction h generalizing parts with
  | found => simp at hparts
  | blank hhere hblank hrest ih =>
    cases parts with
    | nil =>
      cases hparts
      cases hplace
      cases hrest
      exact .found hhere
    | cons part rest =>
      cases hparts
      exact .blank hhere hblank (ih hplace rfl)
  | parent hhere hrest ih =>
    cases parts with
    | nil => cases hparts
    | cons part rest =>
      cases hparts
      exact .parent hhere (ih hplace rfl)
  | name hhere hblank hparent hshort hthere hrest ih =>
    cases parts with
    | nil =>
      cases hparts
      exact absurd rfl hblank
    | cons part rest =>
      cases hparts
      exact .name hhere hblank hparent hshort hthere (ih hplace rfl)
  | free => cases hplace

/-- The walk along a path that is taken from a directory goes to the directory first. -/
theorem walk_parts_join {here : Location} {dir p : Path} (hdir : dir ≠ []) (hp : ¬ Path.isAbsolute p)
    {start : Location} (h : fs.walk start (Path.parts dir) = .ok (.found here .directory)) :
    fs.walk start (Path.parts (Path.join dir p)) = fs.walk here (Path.parts p) := by
  obtain ⟨q, hq, hjoin⟩ := Path.join_of_relative hdir
  have hwalk : fs.walk start (Path.parts q) = .ok (.found here .directory) := by
    rcases hq with rfl | rfl
    · exact h
    · rw [Path.parts, Path.partsFrom_append_slash] at h
      exact walk_of_append_nil h
  rw [hjoin p hp, List.append_assoc, List.singleton_append, Path.parts, Path.partsFrom_append_slash]
  exact walk_append hwalk

/-- **A path taken from the working directory.** It leads where the relative path leads, if it is not
too long. -/
theorem SeenFrom.locate_join {dir p : Path} {place : Place} (h : fs.SeenFrom dir fs')
    (hdir : Path.isAbsolute dir) (hne : p ≠ []) (hp : ¬ Path.isAbsolute p) :
    fs.locate (Path.join dir p) = .ok place ↔
      fs'.locate p = .ok place ∧ (Path.join dir p).length ≤ maxPath := by
  obtain ⟨⟨hdirNe, hdirNul, -⟩, hwalk⟩ := locate_eq_ok_iff.mp h.locate_eq
  rw [if_pos hdir] at hwalk
  have hwalks : fs.walk [] (Path.parts (Path.join dir p)) =
      fs'.walk fs'.workingDirectory (Path.parts p) := by
    rw [walk_parts_join hdirNe hp hwalk, walk_congr h.lookup_eq]
  obtain ⟨before, hbefore, hjoin⟩ : ∃ before, (0 : UInt8) ∉ before ∧ Path.join dir p = before ++ p := by
    obtain ⟨q, hq, hjoin⟩ := Path.join_of_relative hdirNe
    refine ⟨q ++ [Path.slash], ?_, hjoin p hp⟩
    rw [List.contains_iff_mem] at hdirNul
    rcases hq with rfl | rfl
    · simpa [Path.slash] using hdirNul
    · exact hdirNul
  have hnul : (Path.join dir p).contains 0 ↔ p.contains 0 := by
    rw [hjoin, List.contains_iff_mem, List.contains_iff_mem, List.mem_append]
    exact or_iff_right hbefore
  have hlength : p.length ≤ (Path.join dir p).length := by
    rw [hjoin, List.length_append]
    exact Nat.le_add_left _ _
  have hjoinNe : Path.join dir p ≠ [] := by
    intro hnil
    rw [hnil, List.length_nil, Nat.le_zero, List.length_eq_zero_iff] at hlength
    exact hne hlength
  rw [locate_eq_ok_iff, locate_eq_ok_iff, if_pos (Path.isAbsolute_join hdir p), if_neg hp, hwalks, hnul]
  constructor
  · rintro ⟨⟨-, hnoNul, hshort⟩, hplace⟩
    exact ⟨⟨⟨hne, hnoNul, by omega⟩, hplace⟩, by omega⟩
  · rintro ⟨⟨⟨-, hnoNul, -⟩, hplace⟩, hshort⟩
    exact ⟨⟨hjoinNe, hnoNul, by omega⟩, hplace⟩

theorem SeenFrom.read_join {dir p : Path} {content : Bytes} (h : fs.SeenFrom dir fs')
    (hdir : Path.isAbsolute dir) (hne : p ≠ []) (hp : ¬ Path.isAbsolute p) :
    fs.read (Path.join dir p) = .ok content ↔
      fs'.read p = .ok content ∧ (Path.join dir p).length ≤ maxPath := by
  simp only [read_eq_ok_iff, h.locate_join hdir hne hp, exists_and_right]

/-- A path without steps leads to a directory, so nothing is read under it. -/
theorem steps_ne_nil_of_read {p : Path} {content : Bytes} (hp : ¬ Path.isAbsolute p)
    (h : fs.read p = .ok content) : Path.steps p ≠ [] := by
  intro hsteps
  obtain ⟨loc, x, hlocate⟩ := read_eq_ok_iff.mp h
  have hblank : ∀ part ∈ Path.parts p, Path.isBlank part := by
    intro part hpart
    by_contra hshown
    have hmem : part ∈ (Path.parts p).filter fun part => ¬ Path.isBlank part :=
      List.mem_filter.mpr ⟨hpart, by simpa using hshown⟩
    rw [Path.steps, Path.stepsOf, List.map_eq_nil_iff] at hsteps
    rw [hsteps] at hmem
    cases hmem
  have hwalk := walk_of_locate hlocate
  rw [if_neg hp, walk_of_blank (lookup_above (List.prefix_refl _)) hblank] at hwalk
  cases hwalk

/-! ## Dots -/

/-- Dots, each before a slash. -/
def dots (n : Nat) : Path := (List.replicate n (Path.dot ++ [Path.slash])).flatten

theorem length_dots (n : Nat) : (dots n).length = 2 * n := by
  induction n with
  | zero => rfl
  | succ n ih =>
    rw [dots, List.replicate_succ, List.flatten_cons, List.length_append, ← dots, ih, Nat.mul_succ]
    exact Nat.add_comm _ _

theorem zero_not_mem_dots (n : Nat) : (0 : UInt8) ∉ dots n := by
  intro hmem
  obtain ⟨part, hpart, hzero⟩ := List.mem_flatten.mp hmem
  rw [List.eq_of_mem_replicate hpart] at hzero
  revert hzero
  decide

theorem parts_dots_append (n : Nat) (p : Path) :
    Path.parts (dots n ++ p) = List.replicate n Path.dot ++ Path.parts p := by
  induction n with
  | zero => rfl
  | succ n ih =>
    have hfirst : dots (n + 1) ++ p = Path.dot ++ Path.slash :: (dots n ++ p) := by
      rw [dots, List.replicate_succ, List.flatten_cons, ← dots, List.append_assoc, List.append_assoc,
        List.singleton_append]
    rw [hfirst, Path.parts, Path.partsFrom_append_slash, ih, List.replicate_succ]
    rfl

/-- Dots before a path lead nowhere else, as long as the path does not get too long. -/
theorem locate_dots_append {n : Nat} {p : Path} (hne : p ≠ []) (hp : ¬ Path.isAbsolute p)
    (hshort : 2 * n + p.length ≤ maxPath) : fs.locate (dots n ++ p) = fs.locate p := by
  have hrelative : ¬ Path.isAbsolute (dots n ++ p) := by
    cases n with
    | zero => exact hp
    | succ n => exact nofun
  have hnul : (dots n ++ p).contains 0 ↔ p.contains 0 := by
    rw [List.contains_iff_mem, List.contains_iff_mem, List.mem_append]
    exact or_iff_right (zero_not_mem_dots n)
  have hhere : fs.lookup fs.workingDirectory = some .directory := lookup_above (List.prefix_refl _)
  have hblank : ∀ part ∈ List.replicate n Path.dot, Path.isBlank part := by
    intro part hpart
    rw [List.eq_of_mem_replicate hpart]
    rfl
  have hlength := length_dots n
  rw [locate, locate, if_neg (fun hnil => hne (List.append_eq_nil_iff.mp hnil).2), if_neg hne,
    if_neg hrelative, if_neg hp, parts_dots_append, walk_append (walk_of_blank hhere hblank)]
  simp only [hnul]
  rw [if_neg (c := maxPath < (dots n ++ p).length), if_neg (c := maxPath < p.length)]
  · omega
  · rw [List.length_append]
    omega

end GoldenHarness.FileSystem

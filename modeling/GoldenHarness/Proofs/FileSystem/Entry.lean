import GoldenHarness.Proofs.FileSystem.Walk

/-!
# Entries of directories

A path to a free name leads to a directory first: to the one that what stands up to the last slash
leads to. So a new file is a direct entry of a directory if its path is the directory's, a slash, and
a name without slashes.
-/

namespace GoldenHarness

namespace Path

/-! ## The last slash -/

/-- A path up to its last slash, and with that. -/
def folder (p : Path) : Path := (p.reverse.dropWhile (· ≠ slash)).reverse

/-- What follows the last slash of a path. -/
def leaf (p : Path) : Bytes := (p.reverse.takeWhile (· ≠ slash)).reverse

variable {p q : Path}

theorem folder_append_leaf (p : Path) : folder p ++ leaf p = p := by
  rw [folder, leaf, ← List.reverse_append, List.takeWhile_append_dropWhile, List.reverse_reverse]

theorem slash_not_mem_leaf (p : Path) : slash ∉ leaf p := by
  intro h
  simpa using List.mem_takeWhile_imp (List.mem_reverse.mp h)

/-- A path with slashes is cut after the last of them, and one without is all leaf. -/
theorem folder_eq (p : Path) : folder p = [] ∨ ∃ q, folder p = q ++ [slash] := by
  unfold folder
  cases hdrop : p.reverse.dropWhile (· ≠ slash) with
  | nil => exact Or.inl rfl
  | cons b rest =>
    have hb := List.head_dropWhile_not (fun b => decide (b ≠ slash)) (by rw [hdrop]; simp)
    simp only [hdrop, List.head_cons, decide_eq_false_iff_not, not_not] at hb
    exact Or.inr ⟨rest.reverse, by rw [hb, List.reverse_cons]⟩

theorem folder_eq_nil_iff : folder p = [] ↔ slash ∉ p := by
  constructor
  · intro h
    rw [← folder_append_leaf p, h, List.nil_append]
    exact slash_not_mem_leaf p
  · intro h
    rcases folder_eq p with hnil | ⟨q, hq⟩
    · exact hnil
    · refine absurd ?_ h
      rw [← folder_append_leaf p, hq]
      simp

theorem leaf_of_not_mem (h : slash ∉ p) : leaf p = p := by
  have hcut := folder_append_leaf p
  rwa [folder_eq_nil_iff.mpr h, List.nil_append] at hcut

/-- What follows the last slash ends with what the path ends with. -/
theorem suffix_leaf {tail : Bytes} (h : tail <:+ p) (htail : slash ∉ tail) : tail <:+ leaf p := by
  obtain ⟨q, rfl⟩ := h
  have hall : ∀ b ∈ tail.reverse, decide (b ≠ slash) = true := by
    intro b hb
    refine decide_eq_true ?_
    rintro rfl
    exact htail (List.mem_reverse.mp hb)
  rw [leaf, List.reverse_append, List.takeWhile_append_of_pos hall, List.reverse_append,
    List.reverse_reverse]
  exact List.suffix_append _ _

/-! ## Parts and joins -/

theorem partsFrom_append_slash (held p q : Path) :
    partsFrom held (p ++ slash :: q) = partsFrom held p ++ parts q := by
  induction p generalizing held with
  | nil => simp [partsFrom_cons, parts]
  | cons b p ih =>
    rw [List.cons_append, partsFrom_cons, partsFrom_cons]
    split
    · rw [ih, List.cons_append]
    · exact ih _

/-- Whatever path is taken from a directory comes after the same slash. -/
theorem join_of_relative {base : Path} (hbase : base ≠ []) :
    ∃ q, (base = q ∨ base = q ++ [slash]) ∧
      ∀ p, ¬ isAbsolute p → join base p = q ++ [slash] ++ p := by
  by_cases hlast : base.getLast? = some slash
  · obtain ⟨q, hq⟩ := List.getLast?_eq_some_iff.mp hlast
    refine ⟨q, Or.inr hq, fun p hp => ?_⟩
    rw [join, if_neg hp, if_pos (Or.inr hlast), hq]
  · refine ⟨base, Or.inl rfl, fun p hp => ?_⟩
    rw [join, if_neg hp, if_neg (not_or.mpr ⟨hbase, hlast⟩), List.append_assoc, List.singleton_append]

end Path

namespace FileSystem

variable {fs : FileSystem}

/-- A walk to a free name goes to a directory first, in which the name is the last part. -/
theorem walk_concat {here loc : Location} {parts : List Bytes} {last : Bytes}
    (hblank : ¬ Path.isBlank last) (hparent : last ≠ Path.dotDot)
    (h : fs.walk here (parts ++ [last]) = .ok (.free loc)) :
    ∃ there, fs.walk here parts = .ok (.found there .directory) ∧ loc = there ++ [last] := by
  -- on the parts before the last; only slashes may follow a free name, and the last part is no slash
  induction parts generalizing here with
  | nil =>
    rw [List.nil_append] at h
    cases leads_of_walk h with
    | blank _ hempty => exact absurd hempty hblank
    | parent => exact absurd rfl hparent
    | name _ _ _ _ _ hrest => cases hrest
    | free hhere => exact ⟨here, walk_nil hhere, rfl⟩
  | cons part rest ih =>
    rw [List.cons_append] at h
    cases leads_of_walk h with
    | blank hhere hpart hrest =>
      rw [walk_blank hhere hpart]
      exact ih (walk_of_leads hrest)
    | parent hhere hrest =>
      rw [walk_parent hhere]
      exact ih (walk_of_leads hrest)
    | name hhere hpart hup hshort hthere hrest =>
      rw [walk_name hhere hpart hup hshort hthere]
      exact ih (walk_of_leads hrest)
    | free _ _ _ _ _ hempty =>
      have hlast : last = [] := by simpa using List.all_eq_true.mp hempty last (by simp)
      exact absurd (by rw [hlast]; rfl) hblank

theorem walk_append {here there : Location} {parts more : List Bytes}
    (h : fs.walk here parts = .ok (.found there .directory)) :
    fs.walk here (parts ++ more) = fs.walk there more := by
  rw [walk_eq_ok_iff] at h
  generalize hplace : Place.found there .directory = place at h
  induction h with
  | found =>
    cases hplace
    rfl
  | blank hhere hblank _ ih =>
    rw [List.cons_append, walk_blank hhere hblank]
    exact ih hplace
  | parent hhere _ ih =>
    rw [List.cons_append, walk_parent hhere]
    exact ih hplace
  | name hhere hblank hparent hshort hthere _ ih =>
    rw [List.cons_append, walk_name hhere hblank hparent hshort hthere]
    exact ih hplace
  | free => cases hplace

/-- A location is that of the entry `name` of the directory that a path leads to. -/
def IsEntryOf (fs : FileSystem) (loc : Location) (dir : Path) (name : Bytes) : Prop :=
  ∃ here, fs.locate dir = .ok (.found here .directory) ∧ loc = here ++ [name]

/-- A path that ends with a name after a slash leads to an entry of the directory before it, if it
leads to a free name. The slash does not matter for where the directory is. -/
theorem isEntryOf_of_locate_free {dir : Path} {name : Bytes} {loc : Location}
    (hslash : Path.slash ∉ name) (hblank : ¬ Path.isBlank name) (hparent : name ≠ Path.dotDot)
    (h : fs.locate (dir ++ Path.slash :: name) = .ok (.free loc)) :
    fs.IsEntryOf loc (dir ++ [Path.slash]) name ∧ (dir ≠ [] → fs.IsEntryOf loc dir name) := by
  obtain ⟨⟨-, hnul, hshort⟩, hwalk⟩ := locate_eq_ok_iff.mp h
  have hparts : Path.parts (dir ++ Path.slash :: name) = Path.parts dir ++ [name] := by
    rw [Path.parts, Path.partsFrom_append_slash, Path.parts, Path.parts,
      Path.partsFrom_of_not_mem hslash, List.reverse_nil, List.nil_append]
  rw [hparts] at hwalk
  obtain ⟨there, hthere, hloc⟩ := walk_concat hblank hparent hwalk
  have hproper {p : Path} (hp : p <+: dir ++ Path.slash :: name) (hne : p ≠ []) :
      (p ≠ [] ∧ ¬ p.contains 0 ∧ ¬ maxPath < p.length) ∧
        Path.isAbsolute p = Path.isAbsolute (dir ++ Path.slash :: name) := by
    obtain ⟨rest, hrest⟩ := hp
    rw [← hrest] at hnul hshort ⊢
    refine ⟨⟨hne, fun h => hnul ?_, fun h => hshort ?_⟩, ?_⟩
    · rw [List.contains_iff_mem] at h ⊢
      exact List.mem_append_left rest h
    · rw [List.length_append]
      omega
    · obtain ⟨b, p, rfl⟩ := List.exists_cons_of_ne_nil hne
      rfl
  constructor
  · obtain ⟨hdir, habsolute⟩ := hproper (p := dir ++ [Path.slash]) ⟨name, by simp⟩ (by simp)
    refine ⟨there, locate_eq_ok_iff.mpr ⟨hdir, ?_⟩, hloc⟩
    rw [habsolute, Path.parts, Path.partsFrom_append_slash]
    rw [show Path.partsFrom [] dir = Path.parts dir from rfl, walk_append hthere]
    exact walk_of_blank (lookup_of_walk_found hthere) (by simp [Path.parts, Path.isBlank])
  · intro hne
    obtain ⟨hdir, habsolute⟩ := hproper (p := dir) (List.prefix_append _ _) hne
    refine ⟨there, locate_eq_ok_iff.mpr ⟨hdir, ?_⟩, hloc⟩
    rw [habsolute]
    exact hthere

/-- A path taken from a directory leads to an entry of the directory that it goes to with its last
slash. That is the first directory only if there is no slash. -/
theorem isEntryOf_of_locate_join {base p : Path} {loc : Location} (hbase : base ≠ [])
    (hp : ¬ Path.isAbsolute p) (hblank : ¬ Path.isBlank (Path.leaf p))
    (hparent : Path.leaf p ≠ Path.dotDot) (h : fs.locate (Path.join base p) = .ok (.free loc)) :
    fs.IsEntryOf loc (Path.join base (Path.folder p)) (Path.leaf p) ∧
      (Path.slash ∉ p → fs.IsEntryOf loc base p) := by
  obtain ⟨q, hq, hjoin⟩ := Path.join_of_relative hbase
  have hfolder : ¬ Path.isAbsolute (Path.folder p) := by
    intro habsolute
    refine hp ?_
    rw [← Path.folder_append_leaf p]
    cases hcut : Path.folder p with
    | nil =>
      rw [hcut] at habsolute
      cases habsolute
    | cons b rest => rwa [hcut] at habsolute
  rw [hjoin p hp] at h
  rw [hjoin _ hfolder]
  rcases Path.folder_eq p with hnil | ⟨q', hq'⟩
  · have hslash := Path.folder_eq_nil_iff.mp hnil
    rw [Path.leaf_of_not_mem hslash] at hblank hparent ⊢
    rw [List.append_assoc, List.singleton_append] at h
    obtain ⟨hentry, hentry'⟩ := isEntryOf_of_locate_free hslash hblank hparent h
    rw [hnil, List.append_nil]
    refine ⟨hentry, fun _ => ?_⟩
    rcases hq with rfl | rfl
    · exact hentry' hbase
    · exact hentry
  · rw [← Path.folder_append_leaf p, hq', ← List.append_assoc, ← List.append_assoc,
      List.append_assoc _ [Path.slash], List.singleton_append] at h
    rw [hq', ← List.append_assoc]
    refine ⟨(isEntryOf_of_locate_free (Path.slash_not_mem_leaf p) hblank hparent h).1, ?_⟩
    intro hslash
    rw [Path.folder_eq_nil_iff.mpr hslash] at hq'
    exact absurd hq' (by simp)

/-- A location is that of an entry under one name only. -/
theorem IsEntryOf.name_eq {loc : Location} {dir dir' : Path} {name name' : Bytes}
    (h : fs.IsEntryOf loc dir name) (h' : fs.IsEntryOf loc dir' name') : name = name' := by
  obtain ⟨here, -, rfl⟩ := h
  obtain ⟨here', -, hloc⟩ := h'
  have hlast := congrArg List.getLast? hloc
  rw [List.getLast?_concat, List.getLast?_concat] at hlast
  exact Option.some.inj hlast

theorem IsEntryOf.insert {loc : Location} {dir : Path} {name : Bytes} (h : fs.IsEntryOf loc dir name)
    (hnone : fs.lookup loc = none) (node : Node) : (fs.insert loc node).IsEntryOf loc dir name := by
  obtain ⟨here, hdir, hloc⟩ := h
  have hne : here ≠ loc := by
    rintro rfl
    rw [lookup_of_locate_found hdir] at hnone
    cases hnone
  refine ⟨here, ?_, hloc⟩
  rw [locate_insert_of_found node (by simp [hnone]) hdir, if_neg hne]

end FileSystem

end GoldenHarness

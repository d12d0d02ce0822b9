import GoldenHarness.Proofs.FileSystem.Entry

/-!
# The steps of a path

The components of a path are what it begins with and then its steps, one for each part that is not
blank. A path that is taken from a directory has the steps of both, and the parent of a path has all
steps of the path but the last. So what is taken from the directory of a file can be compared step by
step, however the path of that file is written.
-/

namespace GoldenHarness.Path

variable {base p q : Path}

/-! ## Parts -/

theorem slash_not_mem_of_mem_partsFrom {held part : Bytes} (hheld : slash ∉ held)
    (h : part ∈ partsFrom held p) : slash ∉ part := by
  -- on the path, with whatever is held of the part being read
  induction p generalizing held with
  | nil =>
    rw [partsFrom_nil, List.mem_singleton] at h
    rw [h, List.mem_reverse]
    exact hheld
  | cons b p ih =>
    rw [partsFrom_cons] at h
    split at h
    · rcases List.mem_cons.mp h with rfl | h
      · rw [List.mem_reverse]
        exact hheld
      · exact ih (List.not_mem_nil) h
    · next hb =>
      refine ih ?_ h
      rw [List.mem_cons, not_or]
      exact ⟨fun heq => hb heq.symm, hheld⟩

theorem mem_parts_of_mem_anchored {part : Bytes} (h : part ∈ (anchored p).2) : part ∈ parts p := by
  unfold anchored at h
  cases hparts : parts p with
  | nil =>
    rw [hparts] at h
    cases h
  | cons first rest =>
    rw [hparts] at h
    dsimp only at h
    split at h
    · exact List.mem_cons_of_mem _ h
    · split at h
      · exact List.mem_cons_of_mem _ h
      · exact h

/-- What is held of a part begins the first of the parts. -/
theorem exists_partsFrom (held : Bytes) (p : Path) :
    ∃ first rest, partsFrom held p = (held.reverse ++ first) :: rest := by
  induction p generalizing held with
  | nil => exact ⟨[], [], by rw [partsFrom_nil, List.append_nil]⟩
  | cons b p ih =>
    rw [partsFrom_cons]
    by_cases hb : b = slash
    · rw [if_pos hb]
      exact ⟨[], partsFrom [] p, by rw [List.append_nil]⟩
    · rw [if_neg hb]
      obtain ⟨first, rest, hfrom⟩ := ih (b :: held)
      refine ⟨b :: first, rest, ?_⟩
      rw [hfrom, List.reverse_cons, List.append_assoc, List.singleton_append]

/-- Parts without slashes are read back from the path that they make up. -/
theorem parts_ofParts {ps : List Bytes} (hne : ps ≠ []) (h : ∀ part ∈ ps, slash ∉ part) :
    parts (ofParts ps) = ps := by
  -- on the parts: each is read up to the slash that was put behind it
  induction ps with
  | nil => exact absurd rfl hne
  | cons part ps ih =>
    have hpart : parts part = [part] := by
      rw [parts, partsFrom_of_not_mem (h part (List.mem_cons_self ..)), List.reverse_nil,
        List.nil_append]
    cases ps with
    | nil =>
      have hsingle : ofParts [part] = part := by simp [ofParts, List.intercalate]
      rw [hsingle, hpart]
    | cons next rest =>
      have hjoined : ofParts (part :: next :: rest) = part ++ slash :: ofParts (next :: rest) := by
        simp [ofParts, List.intercalate]
      have hrest := ih (List.cons_ne_nil _ _) fun part' hmem => h part' (List.mem_cons_of_mem _ hmem)
      rw [hjoined, parts, partsFrom_append_slash, hrest]
      rw [show partsFrom [] part = parts part from rfl, hpart, List.singleton_append]

/-! ## Steps -/

/-- The steps that parts stand for. -/
def stepsOf (ps : List Bytes) : List Component :=
  (ps.filter fun part => ¬ isBlank part).map componentOf

/-- The steps of a path: its components after what it begins with. -/
def steps (p : Path) : List Component := stepsOf (parts p)

theorem steps_eq (p : Path) : steps p = stepsOf (parts p) := rfl

theorem stepsOf_append (ps qs : List Bytes) : stepsOf (ps ++ qs) = stepsOf ps ++ stepsOf qs := by
  unfold stepsOf
  rw [List.filter_append, List.map_append]

theorem stepsOf_of_blank {ps : List Bytes} (h : ∀ part ∈ ps, isBlank part) : stepsOf ps = [] := by
  unfold stepsOf
  rw [List.map_eq_nil_iff, List.filter_eq_nil_iff]
  intro part hpart
  simp [h part hpart]

theorem stepsOf_singleton {part : Bytes} (h : ¬ isBlank part) :
    stepsOf [part] = [componentOf part] := by
  unfold stepsOf
  rw [List.filter_cons_of_pos (by simp [h])]
  rfl

theorem stepsOf_cons_blank {part : Bytes} (h : isBlank part) (ps : List Bytes) :
    stepsOf (part :: ps) = stepsOf ps := by
  rw [← List.singleton_append, stepsOf_append, stepsOf_of_blank (by simpa using h), List.nil_append]

/-- What a path begins with is blank, if it is cut off from the parts. -/
theorem stepsOf_anchored (p : Path) : stepsOf (anchored p).2 = steps p := by
  unfold anchored steps
  cases hparts : parts p with
  | nil => rfl
  | cons first rest =>
    dsimp only
    split
    · next h => rw [h.1, stepsOf_cons_blank rfl]
    · split
      · next h => rw [h, stepsOf_cons_blank rfl]
      · rfl

/-- A path that is not empty begins as its first part says. -/
theorem anchored_of_parts {first : Bytes} {rest : List Bytes} (hp : p ≠ [])
    (h : parts p = first :: rest) :
    (anchored p).1 = if first = [] then .root else if first = dot then .current else .none := by
  have hrest : first = [] → rest ≠ [] := by
    rintro rfl
    obtain ⟨b, p, rfl⟩ := List.exists_cons_of_ne_nil hp
    rw [parts, partsFrom_cons] at h
    split at h
    · rw [← (List.cons.inj h).2]
      exact partsFrom_ne_nil [] p
    · obtain ⟨first, rest', hfrom⟩ := exists_partsFrom [b] p
      rw [hfrom] at h
      cases h
  rw [anchored, h]
  dsimp only
  by_cases hfirst : first = []
  · rw [if_pos ⟨hfirst, hrest hfirst⟩, if_pos hfirst]
  · rw [if_neg (fun hroot => hfirst hroot.1), if_neg hfirst]
    split <;> rfl

theorem anchored_eq_root_iff : (anchored p).1 = .root ↔ isAbsolute p := by
  cases p with
  | nil => decide
  | cons b p =>
    have habsolute : isAbsolute (b :: p) ↔ b = slash := by simp [isAbsolute]
    rw [habsolute]
    by_cases hb : b = slash
    · refine iff_of_true ?_ hb
      rw [anchored_of_parts (List.cons_ne_nil _ _) (by rw [parts, partsFrom_cons, if_pos hb])]
      rfl
    · obtain ⟨first, rest, hfrom⟩ := exists_partsFrom [b] p
      have hparts : parts (b :: p) = (b :: first) :: rest := by
        rw [parts, partsFrom_cons, if_neg hb, hfrom]
        rfl
      refine iff_of_false ?_ hb
      rw [anchored_of_parts (List.cons_ne_nil _ _) hparts, if_neg (List.cons_ne_nil _ _)]
      split <;> simp

/-- The component that stands for what a path begins with, if there is one. -/
def opening : Anchor → List Component
  | .root => [.root]
  | .current => [.current]
  | .none => []

theorem components_eq (p : Path) : components p = opening (anchored p).1 ++ steps p := by
  rw [← stepsOf_anchored, components]
  obtain ⟨anchor, ps⟩ := anchored p
  cases anchor <;> rfl

theorem ne_nil_of_isAbsolute (h : isAbsolute p) : p ≠ [] := by
  rintro rfl
  cases h

theorem components_of_isAbsolute (h : isAbsolute p) : components p = .root :: steps p := by
  rw [components_eq, anchored_eq_root_iff.mpr h]
  rfl

theorem opening_length_le (anchor : Anchor) : (opening anchor).length ≤ 1 := by
  cases anchor <;> decide

/-- Only the empty path has no components. -/
theorem components_ne_nil (hp : p ≠ []) : components p ≠ [] := by
  intro hnil
  rw [components_eq, List.append_eq_nil_iff] at hnil
  obtain ⟨hopening, hsteps⟩ := hnil
  cases hparts : parts p with
  | nil => exact partsFrom_ne_nil [] p hparts
  | cons first rest =>
    rw [anchored_of_parts hp hparts] at hopening
    have hblank : ¬ isBlank first := by
      intro hblank
      rcases of_decide_eq_true hblank with hfirst | hfirst
      · rw [if_pos hfirst] at hopening
        cases hopening
      · rw [if_neg (by rw [hfirst]; decide), if_pos hfirst] at hopening
        cases hopening
    rw [steps_eq, hparts, ← List.singleton_append, stepsOf_append, stepsOf_singleton hblank] at hsteps
    cases hsteps

/-! ## Joins -/

theorem isAbsolute_append (h : isAbsolute p) (q : Path) : isAbsolute (p ++ q) := by
  cases p with
  | nil => cases h
  | cons b p => exact h

theorem isAbsolute_join (h : isAbsolute base) (p : Path) : isAbsolute (join base p) := by
  unfold join
  split
  · assumption
  · split
    · exact isAbsolute_append h _
    · exact isAbsolute_append h _

theorem isAbsolute_join_iff : isAbsolute (join base p) ↔ isAbsolute base ∨ isAbsolute p := by
  constructor
  · intro h
    by_contra hnone
    obtain ⟨hbase, hp⟩ := not_or.mp hnone
    rw [join, if_neg hp] at h
    cases base with
    | nil => exact hp (by simpa using h)
    | cons b base =>
      have hb : isAbsolute (b :: base) = isAbsolute [b] := rfl
      refine hbase ?_
      split at h <;> exact h
  · rintro (h | h)
    · exact isAbsolute_join h p
    · rwa [join, if_pos h]

theorem steps_join (hp : ¬ isAbsolute p) (base : Path) : steps (join base p) = steps base ++ steps p := by
  by_cases hbase : base = []
  · rw [join, if_neg hp, if_pos (Or.inl hbase), hbase]
    rfl
  · obtain ⟨q, hq, hjoin⟩ := join_of_relative hbase
    have hsteps : steps base = steps q := by
      rcases hq with rfl | rfl
      · rfl
      · have hend : stepsOf (parts []) = [] := rfl
        rw [steps_eq, parts, partsFrom_append_slash, stepsOf_append, hend, List.append_nil]
        rfl
    rw [hjoin p hp, hsteps, steps_eq, parts, List.append_assoc, List.singleton_append,
      partsFrom_append_slash, stepsOf_append]
    rfl

/-- A path that is taken from a directory begins as the path of the directory does. -/
theorem anchored_join (hbase : base ≠ []) (hp : ¬ isAbsolute p) :
    (anchored (join base p)).1 = (anchored base).1 := by
  obtain ⟨q, hq, hjoin⟩ := join_of_relative hbase
  obtain ⟨first, rest, hfrom⟩ := exists_partsFrom [] q
  have hslash (p : Path) : parts (q ++ [slash] ++ p) = first :: (rest ++ parts p) := by
    rw [List.append_assoc, List.singleton_append, parts, partsFrom_append_slash, hfrom]
    rfl
  have hparts : ∃ more, parts base = first :: more := by
    rcases hq with rfl | rfl
    · exact ⟨rest, hfrom⟩
    · exact ⟨rest ++ parts [], by rw [← hslash, List.append_nil]⟩
  obtain ⟨more, hmore⟩ := hparts
  rw [hjoin p hp, anchored_of_parts (by simp) (hslash p), anchored_of_parts hbase hmore]

theorem components_join (hbase : base ≠ []) (hp : ¬ isAbsolute p) :
    components (join base p) = components base ++ steps p := by
  rw [components_eq, components_eq base, anchored_join hbase hp, steps_join hp, List.append_assoc]

/-- Taking a path from a directory does not leave it a bare name. -/
theorem one_lt_length_components_join (hp : 1 < (components p).length) (base : Path) :
    1 < (components (join base p)).length := by
  by_cases habsolute : isAbsolute p
  · rwa [join, if_pos habsolute]
  by_cases hbase : base = []
  · rwa [join, if_neg habsolute, if_pos (Or.inl hbase), hbase, List.nil_append]
  have hsome := List.length_pos_iff.mpr (components_ne_nil hbase)
  have hopening := opening_length_le (anchored p).1
  rw [components_eq, List.length_append] at hp
  rw [components_join hbase habsolute, List.length_append]
  omega

/-! ## Parents -/

/-- What is cut off the end of the parts is blank. -/
theorem exists_blank_of_trimBlank (ps : List Bytes) :
    ∃ blanks, ps = trimBlank ps ++ blanks ∧ ∀ part ∈ blanks, isBlank part := by
  refine ⟨(ps.reverse.takeWhile isBlank).reverse, ?_, ?_⟩
  · rw [trimBlank, ← List.reverse_append, List.takeWhile_append_dropWhile, List.reverse_reverse]
  · intro part hpart
    exact List.mem_takeWhile_imp (List.mem_reverse.mp hpart)

theorem trimBlank_isPrefix (ps : List Bytes) : trimBlank ps <+: ps := by
  obtain ⟨blanks, hps, -⟩ := exists_blank_of_trimBlank ps
  exact ⟨blanks, hps.symm⟩

theorem stepsOf_trimBlank (ps : List Bytes) : stepsOf (trimBlank ps) = stepsOf ps := by
  obtain ⟨blanks, hps, hblank⟩ := exists_blank_of_trimBlank ps
  conv_rhs => rw [hps, stepsOf_append, stepsOf_of_blank hblank, List.append_nil]

/-- The last part that is shown stands for the last step. -/
theorem stepsOf_dropLast_trimBlank (ps : List Bytes) :
    stepsOf (trimBlank ps).dropLast = (stepsOf ps).dropLast := by
  rw [← stepsOf_trimBlank ps]
  by_cases hnil : trimBlank ps = []
  · rw [hnil]
    rfl
  · obtain ⟨shown, last, hshown⟩ : ∃ shown last, trimBlank ps = shown ++ [last] :=
      ⟨_, _, (List.dropLast_concat_getLast hnil).symm⟩
    have hlast : ¬ isBlank last := by
      have hdrop : ps.reverse.dropWhile isBlank = last :: shown.reverse := by
        rw [← List.reverse_reverse (ps.reverse.dropWhile isBlank)]
        rw [show (ps.reverse.dropWhile isBlank).reverse = shown ++ [last] from hshown]
        rw [List.reverse_concat]
      have hhead := List.head_dropWhile_not isBlank (by rw [hdrop]; exact List.cons_ne_nil _ _)
      simpa [hdrop] using hhead
    rw [hshown, List.dropLast_concat, stepsOf_append, stepsOf_singleton hlast, List.dropLast_concat]

theorem steps_ofParts {ps : List Bytes} (h : ∀ part ∈ ps, slash ∉ part) :
    steps (ofParts ps) = stepsOf ps := by
  by_cases hnil : ps = []
  · rw [hnil]
    rfl
  · rw [steps_eq, parts_ofParts hnil h]

theorem ofAnchored_current (ps : List Bytes) :
    ofAnchored .current ps = dot ∨ ofAnchored .current ps = dot ++ slash :: ofParts ps := by
  cases ps with
  | nil => exact Or.inl rfl
  | cons part ps => exact Or.inr rfl

theorem steps_ofAnchored {ps : List Bytes} (h : ∀ part ∈ ps, slash ∉ part) (anchor : Anchor) :
    steps (ofAnchored anchor ps) = stepsOf ps := by
  have hparts := steps_ofParts h
  cases anchor with
  | none => exact hparts
  | root =>
    show steps (slash :: ofParts ps) = stepsOf ps
    rw [steps_eq, parts, partsFrom_cons, if_pos rfl]
    rwa [List.reverse_nil, stepsOf_cons_blank rfl]
  | current =>
    cases ps with
    | nil => rfl
    | cons part ps =>
      have hdot : stepsOf (partsFrom [] dot) = [] := rfl
      show steps (dot ++ slash :: ofParts (part :: ps)) = _
      rw [steps_eq, parts, partsFrom_append_slash, stepsOf_append, hdot, List.nil_append]
      exact hparts

/-- A parent is made up of parts of the path, and begins as that. -/
theorem parent?_eq_some (h : parent? p = some q) :
    (q = [] ∧ (anchored p).1 = .current ∧ steps p = []) ∨
      q = ofAnchored (anchored p).1 (trimBlank (trimBlank (anchored p).2).dropLast) := by
  unfold parent? at h
  cases hanchored : anchored p with
  | mk anchor ps =>
    rw [hanchored] at h
    dsimp only at h ⊢
    split at h
    · cases h
    · next hshown =>
      cases h
      refine Or.inl ⟨rfl, rfl, ?_⟩
      rw [← stepsOf_anchored, hanchored, ← stepsOf_trimBlank, hshown]
      rfl
    · cases h
    · cases h
      exact Or.inr rfl

/-- The parts that a parent is made up of begin those of the path. -/
theorem shown_isPrefix (p : Path) :
    trimBlank (trimBlank (anchored p).2).dropLast <+: (anchored p).2 :=
  ((trimBlank_isPrefix _).trans (List.dropLast_prefix _)).trans (trimBlank_isPrefix _)

theorem steps_of_parent? (h : parent? p = some q) : steps q = (steps p).dropLast := by
  rcases parent?_eq_some h with ⟨rfl, -, hsteps⟩ | rfl
  · rw [hsteps]
    rfl
  · rw [steps_ofAnchored, stepsOf_trimBlank, stepsOf_dropLast_trimBlank, stepsOf_anchored]
    intro part hpart
    exact slash_not_mem_of_mem_partsFrom List.not_mem_nil
      (mem_parts_of_mem_anchored ((shown_isPrefix p).subset hpart))

theorem anchored_of_none (h : (anchored p).1 = .none) : (anchored p).2 = parts p := by
  unfold anchored at h ⊢
  cases hparts : parts p with
  | nil => rfl
  | cons first rest =>
    rw [hparts] at h
    dsimp only at h ⊢
    split at h
    · cases h
    · next hroot =>
      rw [if_neg hroot]
      split at h
      · cases h
      · next hdot => rw [if_neg hdot]

/-- The first parts of a relative path make up a relative path. -/
theorem not_isAbsolute_ofParts {ps : List Bytes} (hp : ¬ isAbsolute p) (h : ps <+: parts p) :
    ¬ isAbsolute (ofParts ps) := by
  cases ps with
  | nil => decide
  | cons part ps =>
    obtain ⟨more, hmore⟩ := h
    cases p with
    | nil =>
      obtain ⟨rfl, hnil⟩ : part = [] ∧ ps ++ more = [] := by simpa [parts] using hmore
      rw [(List.append_eq_nil_iff.mp hnil).1]
      decide
    | cons b p =>
      have hb : b ≠ slash := by
        rintro rfl
        exact hp rfl
      obtain ⟨first, rest, hfrom⟩ := exists_partsFrom [b] p
      rw [parts, partsFrom_cons, if_neg hb, hfrom, List.cons_append] at hmore
      have hpart : part = b :: first := (List.cons.inj hmore).1
      have hhead : (ofParts (part :: ps)).head? = some b := by
        cases ps <;> simp [ofParts, List.intercalate, hpart]
      rw [isAbsolute, hhead]
      simpa using hb

theorem isAbsolute_parent_iff (h : parent? p = some q) : isAbsolute q ↔ isAbsolute p := by
  rw [← anchored_eq_root_iff (p := p)]
  rcases parent?_eq_some h with ⟨rfl, hanchor, -⟩ | rfl
  · rw [hanchor]
    decide
  · have hprefix := shown_isPrefix p
    cases hanchor : (anchored p).1 with
    | root => exact iff_of_true rfl rfl
    | current =>
      refine iff_of_false ?_ (by decide)
      rcases ofAnchored_current (trimBlank (trimBlank (anchored p).2).dropLast) with h | h
      · rw [h]
        decide
      · rw [h]
        exact Bool.false_ne_true
    | none =>
      rw [anchored_of_none hanchor] at hprefix
      have hp : ¬ isAbsolute p := by
        intro habsolute
        cases hanchor.symm.trans (anchored_eq_root_iff.mpr habsolute)
      refine iff_of_false ?_ (by decide)
      rw [anchored_of_none hanchor]
      exact not_isAbsolute_ofParts hp hprefix

/-- A path with a step has a parent. -/
theorem exists_parent (h : steps p ≠ []) : ∃ q, parent? p = some q := by
  rw [← stepsOf_anchored, ← stepsOf_trimBlank] at h
  unfold parent?
  cases hanchored : anchored p with
  | mk anchor ps =>
    have hshown : trimBlank ps ≠ [] := by
      intro hnil
      rw [hanchored, hnil] at h
      exact h rfl
    dsimp only
    split
    · contradiction
    · exact ⟨_, rfl⟩
    · contradiction
    · exact ⟨_, rfl⟩

/-- A parent that is not empty begins as the path does. -/
theorem anchored_parent (h : parent? p = some q) (hq : q ≠ []) :
    (anchored q).1 = (anchored p).1 := by
  rcases parent?_eq_some h with ⟨hnil, -, -⟩ | heq
  · exact absurd hnil hq
  have hprefix := shown_isPrefix p
  cases hanchor : (anchored p).1 with
  | root => exact anchored_eq_root_iff.mpr ((isAbsolute_parent_iff h).mpr (anchored_eq_root_iff.mp hanchor))
  | current =>
    rw [heq, hanchor]
    rcases ofAnchored_current (trimBlank (trimBlank (anchored p).2).dropLast) with h | h
    · rw [h]
      rfl
    · rw [h]
      exact anchored_of_parts (List.cons_ne_nil _ _) (partsFrom_append_slash [] dot _)
  | none =>
    rw [anchored_of_none hanchor] at heq hprefix
    rw [hanchor] at heq
    change q = ofParts _ at heq
    generalize trimBlank (trimBlank (parts p)).dropLast = shown at heq hprefix
    cases shown with
    | nil => exact absurd heq hq
    | cons first shown =>
      have hslash : ∀ part ∈ first :: shown, slash ∉ part := fun part hpart =>
        slash_not_mem_of_mem_partsFrom List.not_mem_nil (List.IsPrefix.subset hprefix hpart)
      have hparts : parts q = first :: shown := by
        rw [heq, parts_ofParts (List.cons_ne_nil _ _) hslash]
      obtain ⟨more, hmore⟩ := hprefix
      have hp : p ≠ [] := by
        rintro rfl
        obtain ⟨rfl, hshown⟩ : first = [] ∧ shown ++ more = [] := by simpa [parts] using hmore
        rw [(List.append_eq_nil_iff.mp hshown).1] at heq
        exact hq heq
      rw [← hanchor, anchored_of_parts hq hparts, anchored_of_parts hp hmore.symm]

/-! ## File names -/

/-- A file name is one of the parts, and stands neither for its directory nor for the one above. -/
theorem part_of_fileName? {name : Bytes} (h : fileName? p = some name) :
    name ∈ parts p ∧ ¬ isBlank name ∧ name ≠ dotDot := by
  unfold fileName? at h
  split at h
  · next n hlast =>
    obtain rfl : n = name := Option.some.inj h
    have hmem := List.mem_of_getLast? hlast
    -- what the path begins with is no name
    have hsteps : Component.name n ∈
        ((anchored p).2.filter fun part => ¬ isBlank part).map componentOf := by
      unfold components at hmem
      dsimp only at hmem
      split at hmem
      · exact (List.mem_cons.mp hmem).resolve_left nofun
      · exact (List.mem_cons.mp hmem).resolve_left nofun
      · exact hmem
    obtain ⟨part, hpart, heq⟩ := List.mem_map.mp hsteps
    obtain ⟨hmem, hblank⟩ := List.mem_filter.mp hpart
    unfold componentOf at heq
    split at heq
    · cases heq
    · next hparent =>
      cases heq
      exact ⟨mem_parts_of_mem_anchored hmem, by simpa using hblank, hparent⟩
  · cases h

theorem slash_not_mem_of_fileName? {name : Bytes} (h : fileName? p = some name) : slash ∉ name :=
  slash_not_mem_of_mem_partsFrom List.not_mem_nil (part_of_fileName? h).1

/-- A file name is a path with one step. -/
theorem steps_of_fileName? {name : Bytes} (h : fileName? p = some name) :
    steps name = [.name name] := by
  obtain ⟨-, hblank, hparent⟩ := part_of_fileName? h
  have hparts : parts name = [name] := by
    rw [parts, partsFrom_of_not_mem (slash_not_mem_of_fileName? h), List.reverse_nil, List.nil_append]
  rw [steps_eq, hparts, stepsOf_singleton hblank, componentOf, if_neg hparent]

theorem not_isAbsolute_of_fileName? {name : Bytes} (h : fileName? p = some name) :
    ¬ isAbsolute name := by
  intro habsolute
  exact slash_not_mem_of_fileName? h (List.mem_of_head? (of_decide_eq_true habsolute))

/-- The file name is the last step. -/
theorem steps_eq_dropLast_append {name : Bytes} (h : fileName? p = some name) :
    steps p = (steps p).dropLast ++ [.name name] := by
  have hlast : (components p).getLast? = some (.name name) := by
    unfold fileName? at h
    split at h
    · next hlast => rw [hlast, Option.some.inj h]
    · cases h
  -- what the path begins with is no name, so there are steps after it
  have hne : steps p ≠ [] := by
    intro hnil
    rw [components_eq, hnil, List.append_nil] at hlast
    cases hanchor : (anchored p).1 <;> rw [hanchor] at hlast <;> cases hlast
  rw [components_eq, List.getLast?_append] at hlast
  obtain ⟨before, last, hbefore⟩ : ∃ before last, steps p = before ++ [last] :=
    ⟨_, _, (List.dropLast_concat_getLast hne).symm⟩
  rw [hbefore, List.getLast?_concat, Option.some_or] at hlast
  rw [hbefore, List.dropLast_concat, Option.some.inj hlast]

/-! ## The directory of a file -/

theorem directory_ne_nil (p : Path) : directory p ≠ [] := by
  unfold directory
  split
  · exact List.cons_ne_nil _ _
  · exact List.cons_ne_nil _ _
  · next hempty _ => exact hempty

theorem directory_of_parent (h : parent? p = some q) : directory p = if q = [] then dot else q := by
  unfold directory
  rw [h]
  cases q <;> rfl

/-- Only without a beginning can a path be empty. -/
theorem anchor_of_ofAnchored_eq_nil {anchor : Anchor} {ps : List Bytes}
    (h : ofAnchored anchor ps = []) : anchor = .none := by
  cases anchor with
  | none => rfl
  | root => cases h
  | current => cases ps <;> cases h

/-- The file name, taken from the directory of the file, has the components of the path, up to a dot at
the beginning where the path is the name alone. -/
theorem components_join_directory {name : Bytes} (h : fileName? p = some name) :
    components (join (directory p) name) = components p ∨
      components (join (directory p) name) = .current :: components p := by
  have hsteps := steps_eq_dropLast_append h
  obtain ⟨q, hq⟩ := exists_parent (p := p) (by rw [hsteps]; simp)
  have hbefore : steps q = (steps p).dropLast := steps_of_parent? hq
  rw [components_join (directory_ne_nil p) (not_isAbsolute_of_fileName? h), steps_of_fileName? h,
    directory_of_parent hq]
  by_cases hempty : q = []
  · right
    have hanchor : (anchored p).1 = .none := by
      rcases parent?_eq_some hq with ⟨-, -, hnone⟩ | heq
      · rw [hnone] at hsteps
        cases hsteps
      · exact anchor_of_ofAnchored_eq_nil (heq.symm.trans hempty)
    rw [hempty] at hbefore
    rw [if_pos hempty, components_eq p, hanchor, hsteps, ← hbefore]
    rfl
  · left
    rw [if_neg hempty, components_eq q, anchored_parent hq hempty, hbefore, List.append_assoc, ← hsteps,
      components_eq]

end GoldenHarness.Path

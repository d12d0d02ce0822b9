import GoldenHarness.Proofs.Transient.Turns
import Mathlib.Data.List.Induction

/-!
# Desks in good order

As long as no name is drawn twice, the files at a desk are in different places, none of them where
anything was at first. So the files that were there at first are what is left without those in use.
-/

namespace GoldenHarness.Transient.Desk

variable {names : NameSource} {a : Nat} {t u : Transient} {d d' : Desk} {i j : Nat} {m : Move}
  {fs : FileSystem}

/-! ## Sequences of moves -/

/-- A desk at which the files do not get in each other's way. Only the files in use have been added to
the files that were there at first. -/
structure Orderly (names : NameSource) (fs : FileSystem) (d : Desk) : Prop where
  /-- Each file has a name that was drawn for it. -/
  named : ∀ {i t}, d.get? i = some t → ∃ a, a < d.draws ∧ IsNamed names a t
  /-- At first, nothing was where a file is. -/
  free : ∀ {i t}, d.get? i = some t → fs.locate t.path = .ok (.free t.location)
  /-- The files are in different places and have different paths. -/
  apart : ∀ {i j t u}, d.get? i = some t → d.get? j = some u → i ≠ j →
    t.path ≠ u.path ∧ t.location ≠ u.location
  /-- No directory is in the place of a file. -/
  files : ∀ {i t}, d.get? i = some t → d.files.lookup t.location ≠ some .directory
  /-- Without the files in use, there is what was there at first. -/
  rest : d.files.without d.places = fs

theorem orderly_empty (names : NameSource) (fs : FileSystem) : Orderly names fs (empty fs) where
  named h := nomatch h
  free h := nomatch h
  apart h := nomatch h
  files h := nomatch h
  rest := FileSystem.without_nil fs

/-- A change to the files that leaves the desk as it is, where the place of a file is concerned. -/
theorem Orderly.with_files {files : FileSystem} (h : Orderly names fs d)
    (hfiles : ∀ {i t}, d.get? i = some t → files.lookup t.location ≠ some .directory)
    (hrest : files.without d.places = d.files.without d.places) :
    Orderly names fs { d with files } :=
  ⟨h.named, h.free, h.apart, hfiles, hrest.trans h.rest⟩

section Rest

variable (h : Orderly names fs d)

include h

/-- What is not in the place of a file in use is as it was at first. -/
theorem Orderly.lookup_rest (loc : Location) :
    fs.lookup loc = if loc ∈ d.places then none else d.files.lookup loc := by
  have hfiles : ∀ other ∈ d.places, d.files.lookup other ≠ some .directory := by
    intro other hother
    obtain ⟨i, t, ht, rfl⟩ := mem_places.mp hother
    exact h.files ht
  rw [← FileSystem.lookup_without hfiles, h.rest]

theorem Orderly.directory_iff (loc : Location) :
    d.files.lookup loc = some .directory ↔ fs.lookup loc = some .directory := by
  rw [h.lookup_rest]
  split
  · next hplace =>
    obtain ⟨i, t, ht, rfl⟩ := mem_places.mp hplace
    exact iff_of_false (h.files ht) nofun
  · rfl

theorem Orderly.workingDirectory_eq : d.files.workingDirectory = fs.workingDirectory := by
  rw [← h.rest]
  rfl

/-- A path that led to a free name at first leads there still, whatever is there. -/
theorem Orderly.locate_eq (hpath : t.path.getLast? ≠ some Path.slash)
    (hfree : fs.locate t.path = .ok (.free t.location)) :
    d.files.locate t.path =
      .ok ((d.files.lookup t.location).elim (.free t.location) (.found t.location)) :=
  FileSystem.locate_of_free hpath h.workingDirectory_eq (fun loc => (h.directory_iff loc).mpr) hfree

theorem Orderly.locate_rest (hpath : t.path.getLast? ≠ some Path.slash)
    (hfree : d.files.locate t.path = .ok (.free t.location)) :
    fs.locate t.path = .ok (.free t.location) := by
  have hnone : fs.lookup t.location = none := by
    rw [h.lookup_rest, FileSystem.lookup_of_locate_free hfree, ite_self]
  rw [FileSystem.locate_of_free hpath h.workingDirectory_eq.symm
    (fun loc => (h.directory_iff loc).mp) hfree, hnone]
  rfl

end Rest

theorem Orderly.create {draws : Nat} (huniform : names.IsUniform) (h : Orderly names fs d)
    (hfresh : names.IsFresh draws) (hfrom : d.draws ≤ a) (hto : a < draws) (hnamed : IsNamed names a t)
    (hfree : d.files.locate t.path = .ok (.free t.location)) :
    Orderly names fs
      ⟨d.files.insert t.location (.file [] false), d.held ++ [some t], draws⟩ := by
  have hold {i : Nat} {u : Transient} (hu : d.get? i = some u) :
      u.path ≠ t.path ∧ u.location ≠ t.location := by
    obtain ⟨b, hb, hunamed⟩ := h.named hu
    exact hunamed.ne huniform hnamed (hfresh b a (by omega) hto)
  have hnone := FileSystem.lookup_of_locate_free hfree
  have hdir : d.files.lookup t.location ≠ some .directory := by simp [hnone]
  -- a file is the new one, or one that was there before
  have hcases {i : Nat} {u : Transient}
      (hu : Desk.get? ⟨d.files.insert t.location (.file [] false), d.held ++ [some t], draws⟩ i =
        some u) : i = d.held.length ∧ u = t ∨ i ≠ d.held.length ∧ d.get? i = some u := by
    rw [get?_append] at hu
    split at hu
    · next heq => exact Or.inl ⟨heq, (Option.some.inj hu).symm⟩
    · next hne => exact Or.inr ⟨hne, hu⟩
  refine ⟨fun hu => ?_, fun hu => ?_, fun hu hv hne => ?_, fun hu => ?_, ?_⟩
  · rcases hcases hu with ⟨-, rfl⟩ | ⟨-, hu⟩
    · exact ⟨a, hto, hnamed⟩
    · obtain ⟨b, hb, hunamed⟩ := h.named hu
      exact ⟨b, by show b < draws; omega, hunamed⟩
  · rcases hcases hu with ⟨-, rfl⟩ | ⟨-, hu⟩
    · exact h.locate_rest hnamed.getLast?_path hfree
    · exact h.free hu
  · rcases hcases hu with ⟨hi, hut⟩ | ⟨-, hu⟩ <;> rcases hcases hv with ⟨hj, hvt⟩ | ⟨-, hv⟩
    · exact absurd (hi.trans hj.symm) hne
    · rw [hut]
      exact ⟨(hold hv).1.symm, (hold hv).2.symm⟩
    · rw [hvt]
      exact hold hu
    · exact h.apart hu hv hne
  · show (d.files.insert t.location (.file [] false)).lookup _ ≠ _
    rw [FileSystem.lookup_insert hdir]
    rcases hcases hu with ⟨-, rfl⟩ | ⟨-, hu⟩
    · simp
    · rw [if_neg (hold hu).2]
      exact h.files hu
  · have hplaces : (Desk.mk (d.files.insert t.location (.file [] false)) (d.held ++ [some t])
        draws).places = d.places ++ [t.location] := by
      simp [places, live]
    have hmem (loc : Location) : loc ∈ d.places ++ [t.location] ↔ loc ∈ t.location :: d.places := by
      simp [or_comm]
    show (d.files.insert t.location (.file [] false)).without _ = fs
    rw [hplaces, FileSystem.without_insert (by simp), FileSystem.without_congr hmem,
      ← FileSystem.without_erase, FileSystem.erase_of_lookup_none hnone, h.rest]

theorem Orderly.write {content : Bytes} {x : Bool} (h : Orderly names fs d)
    (hheld : d.get? i = some t) :
    Orderly names fs { d with files := d.files.insert t.location (.file content x) } := by
  refine h.with_files (fun {j u} hu => ?_) ?_
  · rw [FileSystem.lookup_insert (h.files hheld)]
    split
    · simp
    · exact h.files hu
  · exact FileSystem.without_insert (mem_places.mpr ⟨i, t, hheld, rfl⟩) _ _

theorem Orderly.erase (h : Orderly names fs d) (hheld : d.get? i = some t) :
    Orderly names fs { d with files := d.files.erase t.location } := by
  refine h.with_files (fun {j u} hu => ?_) ?_
  · rw [FileSystem.lookup_erase (h.files hheld)]
    split
    · simp
    · exact h.files hu
  · have hmem : t.location ∈ d.places := mem_places.mpr ⟨i, t, hheld, rfl⟩
    rw [FileSystem.without_erase]
    refine FileSystem.without_congr (fun loc => ?_) _
    rw [List.mem_cons, or_iff_right_of_imp]
    rintro rfl
    exact hmem

/-- A file that was removed may leave the desk. -/
theorem Orderly.release (h : Orderly names fs d) (hheld : d.get? i = some t)
    (hnone : d.files.lookup t.location = none) :
    Orderly names fs { d with held := d.held.set i none } := by
  have hcases {j : Nat} {u : Transient}
      (hu : Desk.get? { d with held := d.held.set i none } j = some u) :
      j ≠ i ∧ d.get? j = some u := by
    rw [get?_set] at hu
    split at hu
    · cases hu
    · next hne => exact ⟨hne, hu⟩
  refine ⟨fun hu => h.named (hcases hu).2, fun hu => h.free (hcases hu).2,
    fun hu hv => h.apart (hcases hu).2 (hcases hv).2, fun hu => h.files (hcases hu).2, ?_⟩
  have hmem (loc : Location) :
      loc ∈ t.location :: Desk.places { d with held := d.held.set i none } ↔ loc ∈ d.places := by
    rw [List.mem_cons, mem_places, mem_places]
    constructor
    · rintro (rfl | ⟨j, u, hu, rfl⟩)
      · exact ⟨i, t, hheld, rfl⟩
      · exact ⟨j, u, (hcases hu).2, rfl⟩
    · rintro ⟨j, u, hu, rfl⟩
      by_cases hj : j = i
      · subst hj
        left
        rw [Option.some.inj (hu.symm.trans hheld)]
      · refine Or.inr ⟨j, u, ?_, rfl⟩
        rw [get?_set, if_neg hj]
        exact hu
  show d.files.without _ = fs
  rw [← h.rest, ← FileSystem.without_congr hmem, ← FileSystem.without_erase,
    FileSystem.erase_of_lookup_none hnone]

theorem Orderly.turn (huniform : names.IsUniform) (h : Orderly names fs d)
    (hturn : Turn names d m d') (hfresh : names.IsFresh d'.draws) : Orderly names fs d' := by
  cases hturn with
  | created hfrom hto hnamed hfree =>
    exact h.create huniform hfresh hfrom hto hnamed hfree
  | notCreated hto =>
    refine ⟨fun hu => ?_, h.free, h.apart, h.files, h.rest⟩
    obtain ⟨b, hb, hunamed⟩ := h.named hu
    exact ⟨b, hb.trans_le hto, hunamed⟩
  | idle => exact h
  | written hheld hfile => exact h.write hheld
  | lost => exact h
  | unlinked hheld => exact h.erase hheld
  | closed hheld =>
    refine (h.erase hheld).release hheld ?_
    rw [FileSystem.lookup_erase (h.files hheld), if_pos rfl]

theorem after_append (names : NameSource) (fs : FileSystem) (moves : List Move) (m : Move) :
    after names fs (moves ++ [m]) = perform names (after names fs moves) m := by
  rw [after, List.foldl_append]
  rfl

/-- Every sequence of moves keeps the files apart, if no name is drawn twice. -/
theorem orderly_after (huniform : names.IsUniform) {moves : List Move}
    (hfresh : names.IsFresh (after names fs moves).draws) : Orderly names fs (after names fs moves) := by
  induction moves using List.reverseRecOn with
  | nil => exact orderly_empty names fs
  | append_singleton moves m ih =>
    rw [after_append] at hfresh ⊢
    -- what had been drawn before the last move is among what has been drawn in the end
    have horderly := ih (hfresh.mono (draws_le_perform names _ m))
    exact horderly.turn huniform (turn_perform huniform horderly.files m) hfresh

/-! ## Closing -/

/-- A file that is closed: there is nothing where it was, and nothing else is changed. -/
structure Closes (d : Desk) (i : Nat) (t : Transient) (next : Desk) : Prop where
  /-- There is nothing under the path of the file. -/
  free : next.files.locate t.path = .ok (.free t.location)
  /-- Everything else is as it was. -/
  elsewhere : ∀ loc, loc ≠ t.location → next.files.lookup loc = d.files.lookup loc
  /-- If the file had been removed before, nothing is changed. -/
  unchanged : d.files.lookup t.location = none → next.files = d.files
  /-- The file is no longer in use, and all others are. -/
  held : ∀ j, next.get? j = if j = i then none else d.get? j

theorem Orderly.close (h : Orderly names fs d) (hheld : d.get? i = some t) :
    ∃ next, d.close i = (true, next) ∧ Orderly names fs next ∧ Closes d i t next := by
  have hlookup := FileSystem.lookup_erase (h.files hheld)
  have horderly := (h.erase hheld).release hheld ((hlookup t.location).trans (if_pos rfl))
  obtain ⟨a, -, hnamed⟩ := h.named hheld
  refine ⟨_, close_eq hheld (h.files hheld), horderly, ⟨?_, fun loc hloc => ?_, fun hnone => ?_, ?_⟩⟩
  · rw [horderly.locate_eq hnamed.getLast?_path (h.free hheld)]
    show Except.ok (((d.files.erase t.location).lookup t.location).elim _ _) = _
    rw [hlookup, if_pos rfl]
    rfl
  · exact (hlookup loc).trans (if_neg hloc)
  · exact FileSystem.erase_of_lookup_none hnone
  · exact fun j => get?_set _ _ _ _ _

theorem Orderly.close_all (h : Orderly names fs d) (numbers : List Nat) :
    let next := numbers.foldl (fun d i => (d.close i).2) d
    Orderly names fs next ∧ ∀ j, next.get? j = if j ∈ numbers then none else d.get? j := by
  induction numbers generalizing d with
  | nil => exact ⟨h, fun j => rfl⟩
  | cons i rest ih =>
    have hstep : Orderly names fs (d.close i).2 ∧
        ∀ j, (d.close i).2.get? j = if j = i then none else d.get? j := by
      cases hheld : d.get? i with
      | none =>
        rw [close_of_get?_none hheld]
        refine ⟨h, fun j => ?_⟩
        split
        · next hj => rw [hj, hheld]
        · rfl
      | some t =>
        obtain ⟨next, hclose, horderly, hcloses⟩ := h.close hheld
        rw [hclose]
        exact ⟨horderly, hcloses.held⟩
    obtain ⟨horderly, hnone⟩ := ih hstep.1
    refine ⟨horderly, fun j => (hnone j).trans ?_⟩
    rw [hstep.2]
    by_cases hj : j = i <;> simp [hj]

theorem Orderly.files_of_live_nil (h : Orderly names fs d) (hlive : d.live = []) : d.files = fs := by
  have hplaces : d.places = [] := by rw [places, hlive, List.map_nil]
  rw [← h.rest, hplaces, FileSystem.without_nil]

theorem Orderly.files_closeAll (h : Orderly names fs d) : d.closeAll.files = fs := by
  obtain ⟨horderly, hnone⟩ := h.close_all (List.range d.held.length)
  refine horderly.files_of_live_nil (List.eq_nil_iff_forall_not_mem.mpr fun t ht => ?_)
  obtain ⟨i, hi⟩ := mem_live.mp ht
  rw [hnone] at hi
  split at hi
  · cases hi
  · next hrange => exact hrange (List.mem_range.mpr (lt_length_of_get? hi))

theorem Orderly.nodup_paths (h : Orderly names fs d) : (d.live.map Transient.path).Nodup := by
  rw [List.Nodup, List.pairwise_map, live, List.pairwise_filterMap, List.pairwise_iff_getElem]
  intro i j hi hj hij t ht u hu
  have hget {k : Nat} {v : Transient} (hk : k < d.held.length) (hv : id d.held[k] = some v) :
      d.get? k = some v := by
    rw [get?, List.getElem?_eq_getElem hk]
    exact hv
  exact (h.apart (hget hi ht) (hget hj hu) hij.ne).1

end GoldenHarness.Transient.Desk

import GoldenHarness.Proofs.FileSystem.Walk

/-!
# Changes to the files

What a program does to the files is a sequence of changes, each of which puts something at a location
or removes what is there. Changes that put nothing at some location can be told apart from what is at
that location: removing it afterwards is the same as never having had it.
-/

namespace GoldenHarness

/-- A change to the files. -/
inductive Change where
  /-- Something is put at a location, in the place of what is there. -/
  | put (loc : Location) (node : Node)
  /-- What is at a location is removed. -/
  | remove (loc : Location)
deriving DecidableEq, Repr

namespace Change

/-- The files and directories after a change. -/
def apply (fs : FileSystem) : Change → FileSystem
  | put loc node => fs.insert loc node
  | remove loc => fs.erase loc

end Change

namespace FileSystem

variable {fs : FileSystem}

/-! ## Removals among other changes -/

theorem entries_lookup_of_none {loc : Location} (h : fs.lookup loc = none) :
    fs.entries.lookup loc = none := by
  unfold lookup at h
  split at h
  · cases h
  · exact h

theorem erase_of_lookup_none {loc : Location} (h : fs.lookup loc = none) : fs.erase loc = fs := by
  have hfilter : fs.entries.filter (·.1 ≠ loc) = fs.entries := by
    refine List.filter_eq_self.mpr fun e he => ?_
    have hne : loc ≠ e.1 := by
      simpa using List.lookup_eq_none_iff.mp (entries_lookup_of_none h) e he
    exact decide_eq_true hne.symm
  unfold erase
  rw [hfilter]

/-- Entries may be left out before or after others are replaced. -/
theorem filter_map_replace (entries : Entries) (loc other : Location) (node : Node) :
    (entries.map fun e => if e.1 = loc then (loc, node) else e).filter (·.1 ≠ other) =
      (entries.filter (·.1 ≠ other)).map fun e => if e.1 = loc then (loc, node) else e := by
  rw [List.filter_map]
  congr 1
  refine List.filter_congr fun e _ => ?_
  by_cases he : e.1 = loc <;> simp [he]

/-- What was put at a location is gone once it is removed. -/
theorem erase_insert_self (fs : FileSystem) (loc : Location) (node : Node) :
    (fs.insert loc node).erase loc = fs.erase loc := by
  unfold insert
  split
  · have hmap : ((fs.entries.filter (·.1 ≠ loc)).map fun e => if e.1 = loc then (loc, node) else e) =
        fs.entries.filter (·.1 ≠ loc) := by
      refine (List.map_congr_left fun e he => ?_).trans (List.map_id _)
      have hne : e.1 ≠ loc := of_decide_eq_true (List.mem_filter.mp he).2
      rw [if_neg hne, id_eq]
    unfold erase
    rw [filter_map_replace, hmap]
  · unfold erase
    simp

/-- The files and directories without what is at some locations. -/
def without (fs : FileSystem) (locs : List Location) : FileSystem :=
  { fs with entries := fs.entries.filter (·.1 ∉ locs) }

@[simp] theorem without_nil (fs : FileSystem) : fs.without [] = fs := by
  unfold without
  rw [List.filter_eq_self.mpr (by simp)]

theorem without_congr {locs locs' : List Location} (h : ∀ loc, loc ∈ locs ↔ loc ∈ locs')
    (fs : FileSystem) : fs.without locs = fs.without locs' := by
  unfold without
  simp only [h]

theorem without_erase (fs : FileSystem) (loc : Location) (locs : List Location) :
    (fs.erase loc).without locs = fs.without (loc :: locs) := by
  unfold without erase
  simp only [List.filter_filter, List.mem_cons, not_or, Bool.decide_and, Bool.and_comm,
    ne_eq]

/-- What is put at a location that is left out makes no difference. -/
theorem without_insert {loc : Location} {locs : List Location} (h : loc ∈ locs) (fs : FileSystem)
    (node : Node) : (fs.insert loc node).without locs = fs.without locs := by
  have hcons : ∀ other, other ∈ locs ↔ other ∈ loc :: locs := by
    simp only [List.mem_cons, iff_or_self]
    rintro _ rfl
    exact h
  rw [without_congr hcons, ← without_erase, erase_insert_self, without_erase, without_congr hcons]

/-- Leaving out locations without directories changes nothing elsewhere. -/
theorem lookup_without {fs : FileSystem} {locs : List Location}
    (h : ∀ loc ∈ locs, fs.lookup loc ≠ some .directory) (other : Location) :
    (fs.without locs).lookup other = if other ∈ locs then none else fs.lookup other := by
  induction locs generalizing fs with
  | nil => simp
  | cons loc locs ih =>
    obtain ⟨hloc, hlocs⟩ := List.forall_mem_cons.mp h
    have hlookup := lookup_erase hloc
    rw [← without_erase, ih fun l hl => by rw [hlookup]; split <;> simp [hlocs l hl], hlookup]
    by_cases ho : other = loc <;> simp [ho]

/-! ## Sequences of changes -/

end FileSystem

end GoldenHarness

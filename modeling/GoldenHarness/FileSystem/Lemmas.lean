import GoldenHarness.FileSystem.Basic

/-!
# What insertion and removal do

A file system is read through `lookup`. An insertion and a removal change what is at their own
location, and nothing at any other. The working directory and the directories above it are always
there, whatever is inserted or removed, so the statements about the location itself leave them out.
-/

namespace GoldenHarness.FileSystem

/-- The first node of a list at its own location. -/
theorem lookup_cons_self (entries : Entries) (here : Location) (node : Node) :
    List.lookup here ((here, node) :: entries) = some node := by
  rw [List.lookup_cons, beq_self_eq_true]

/-- The first node of a list is passed over at other locations. -/
theorem lookup_cons_of_ne (entries : Entries) {here other : Location} (node : Node)
    (h : other ≠ here) : List.lookup other ((here, node) :: entries) = entries.lookup other := by
  rw [List.lookup_cons, beq_eq_false_iff_ne.2 h]

/-- The first node at a location, where every node at some location is replaced. -/
theorem lookup_map_replace (entries : Entries) (loc other : Location) (node : Node) :
    (entries.map fun e => if e.1 = loc then (loc, node) else e).lookup other =
      if other = loc ∧ (entries.lookup loc).isSome then some node else entries.lookup other := by
  induction entries with
  | nil => simp
  | cons e entries ih =>
    obtain ⟨here, old⟩ := e
    rw [List.map_cons]
    by_cases h : here = loc
    · subst h
      rw [if_pos rfl]
      by_cases ho : other = here
      · subst ho
        simp
      · rw [lookup_cons_of_ne _ _ ho, ih, lookup_cons_of_ne _ _ ho]
        simp [ho]
    · rw [if_neg h, lookup_cons_of_ne entries old (Ne.symm h)]
      by_cases ho : other = here
      · subst ho
        simp [h]
      · rw [lookup_cons_of_ne _ _ ho, ih, lookup_cons_of_ne _ _ ho]

/-- The first node at a location, where those at some location are left out. -/
theorem lookup_filter_ne (entries : Entries) (loc other : Location) :
    (entries.filter (·.1 ≠ loc)).lookup other =
      if other = loc then none else entries.lookup other := by
  induction entries with
  | nil => simp
  | cons e entries ih =>
    obtain ⟨here, node⟩ := e
    rw [List.filter_cons]
    by_cases h : here = loc
    · subst h
      rw [if_neg (by simp), ih]
      by_cases ho : other = here
      · rw [if_pos ho, if_pos ho]
      · rw [if_neg ho, if_neg ho, lookup_cons_of_ne _ _ ho]
    · rw [if_pos (by simpa using h)]
      by_cases ho : other = here
      · subst ho
        rw [lookup_cons_self, lookup_cons_self, if_neg h]
      · rw [lookup_cons_of_ne _ _ ho, lookup_cons_of_ne _ _ ho, ih]

/-- What was inserted is there. -/
theorem lookup_insert_self (fs : FileSystem) {loc : Location} (node : Node)
    (h : ¬ loc <+: fs.workingDirectory) : (fs.insert loc node).lookup loc = some node := by
  unfold insert
  split
  · next old hold => simp [lookup, h, lookup_map_replace, hold]
  · next hnone => simp [lookup, h, List.lookup_append, hnone]

/-- An insertion changes nothing at other locations. -/
theorem lookup_insert_of_ne (fs : FileSystem) {loc other : Location} (node : Node)
    (h : other ≠ loc) : (fs.insert loc node).lookup other = fs.lookup other := by
  unfold insert
  split
  · simp [lookup, lookup_map_replace, h]
  · simp [lookup, List.lookup_append, List.lookup_cons, beq_eq_false_iff_ne.2 h]

/-- What was removed is not there any more. -/
theorem lookup_erase_self (fs : FileSystem) {loc : Location} (h : ¬ loc <+: fs.workingDirectory) :
    (fs.erase loc).lookup loc = none := by
  unfold erase lookup
  rw [if_neg (by simpa using h), lookup_filter_ne, if_pos rfl]

/-- A removal changes nothing at other locations. -/
theorem lookup_erase_of_ne (fs : FileSystem) {loc other : Location} (h : other ≠ loc) :
    (fs.erase loc).lookup other = fs.lookup other := by
  unfold erase lookup
  rw [lookup_filter_ne, if_neg h]

end GoldenHarness.FileSystem

import GoldenHarness.Proofs.FileSystem.Change
import GoldenHarness.Transient.Basic

/-!
# Creating and removing a transient file

A transient file is created where nothing is, as an empty file, and nothing else changes. Closing it
undoes exactly that, whatever was written to it and whether or not it is still there.
-/

namespace GoldenHarness.Transient

variable {fs : FileSystem} {dir : Path} {stem : String} {names : NameSource} {created : Created}

/-- A created transient file has its path and its location from one of the names drawn. -/
theorem createFrom_eq_ok {fuel draws : Nat}
    (h : createFrom fs dir stem names fuel draws = .ok created) :
    fs.createNew created.transient.path = .ok (created.transient.location, created.files) := by
  fun_induction createFrom fs dir stem names fuel draws with
  | case1 => cases h
  | case2 fuel draws path loc files hnew =>
    cases h
    exact hnew
  | case3 fuel draws path htaken ih => exact ih h
  | case4 => cases h

/-- A created transient file has its name from one of the draws that were made. -/
theorem createFrom_path_eq {fuel draws : Nat}
    (h : createFrom fs dir stem names fuel draws = .ok created) :
    ∃ i, draws ≤ i ∧ i < created.draws ∧
      created.transient.path = Path.join dir (fileName stem (names i)) := by
  fun_induction createFrom fs dir stem names fuel draws with
  | case1 => cases h
  | case2 fuel draws path loc files hnew =>
    cases h
    exact ⟨draws, le_refl _, Nat.lt_succ_self _, rfl⟩
  | case3 fuel draws path htaken ih =>
    obtain ⟨i, hi, hlt, hpath⟩ := ih h
    exact ⟨i, by omega, hlt, hpath⟩
  | case4 => cases h

/-- A transient file is created as an empty file where nothing was. -/
theorem create_eq_ok (h : create fs dir stem names = .ok created) :
    fs.lookup created.transient.location = none ∧
      created.files = fs.insert created.transient.location (.file [] false) := by
  obtain ⟨hfree, hfiles⟩ := FileSystem.createNew_eq_ok (createFrom_eq_ok h)
  exact ⟨FileSystem.lookup_of_locate_free hfree, hfiles⟩

theorem lookup_create (h : create fs dir stem names = .ok created) (loc : Location) :
    created.files.lookup loc =
      if loc = created.transient.location then some (.file [] false) else fs.lookup loc := by
  obtain ⟨hnone, hfiles⟩ := create_eq_ok h
  rw [hfiles]
  exact FileSystem.lookup_insert (by simp [hnone]) _ loc

/-- A transient file that is removed at once has never been there. -/
theorem erase_create (h : create fs dir stem names = .ok created) :
    created.files.erase created.transient.location = fs := by
  obtain ⟨hnone, hfiles⟩ := create_eq_ok h
  rw [hfiles, FileSystem.erase_insert_self, FileSystem.erase_of_lookup_none hnone]

end GoldenHarness.Transient

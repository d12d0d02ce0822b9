import GoldenHarness.Toml.Document

/-!
# The keys of a document

A document gives each of its keys one value: an entry is added only if its key has none yet, and
whatever else changes a table leaves its keys as they are.
-/

namespace GoldenHarness.Toml.Entries

variable {entries entries' : Entries} {entry : Key × Span × Value} {name : List Char}

/-- The keys of some entries. -/
def names (entries : Entries) : List (List Char) := entries.map fun entry => entry.1.name

theorem lookup?_eq_none_iff : entries.lookup? name = none ↔ name ∉ entries.names := by
  rw [lookup?, List.find?_eq_none, names, List.mem_map]
  simp

theorem lookup?_eq_some_iff (hdistinct : entries.names.Nodup) :
    entries.lookup? name = some entry ↔ entry ∈ entries ∧ entry.1.name = name := by
  constructor
  · intro h
    rw [lookup?] at h
    exact ⟨List.mem_of_find?_eq_some h, by simpa using List.find?_some h⟩
  · rintro ⟨hmem, rfl⟩
    induction entries with
    | nil => cases hmem
    | cons first entries ih =>
      obtain ⟨hfirst, hrest⟩ := List.nodup_cons.mp hdistinct
      rw [lookup?, List.find?_cons]
      rcases List.mem_cons.mp hmem with rfl | hmem
      · rw [decide_eq_true rfl]
      · have hne : first.1.name ≠ entry.1.name := fun heq =>
          hfirst (List.mem_map.mpr ⟨entry, hmem, heq.symm⟩)
        rw [decide_eq_false hne]
        exact ih hrest hmem

/-! ## Changes -/

theorem nodup_names_append (h : entries.names.Nodup) (entry : Key × Span × Value)
    (hfree : entries.lookup? entry.1.name = none) : (entries ++ [entry]).names.Nodup := by
  have hnew := lookup?_eq_none_iff.mp hfree
  unfold names
  rw [List.map_append, List.nodup_append]
  refine ⟨h, List.pairwise_singleton _ _, ?_⟩
  intro name hname name' hname'
  obtain rfl : name' = entry.1.name := by simpa using hname'
  rintro rfl
  exact hnew hname

theorem nodup_names_add? {key : Key} {span : Span} {value : Value} (h : entries.names.Nodup)
    (hadd : entries.add? key span value = some entries') : entries'.names.Nodup := by
  unfold add? at hadd
  split at hadd
  · cases hadd
  · next hfree =>
    cases hadd
    exact nodup_names_append h (key, span, value) hfree

theorem names_replace (entries : Entries) (name : List Char) (value : Value) :
    (entries.replace name value).names = entries.names := by
  unfold names
  rw [replace, List.map_map]
  refine List.map_congr_left fun entry _ => ?_
  rw [Function.comp_apply]
  split <;> rfl

theorem nodup_names_erase (h : entries.names.Nodup) (name : List Char) :
    (entries.erase name).names.Nodup :=
  h.sublist (List.filter_sublist.map _)

/-- A change inside a table keeps the keys of the table apart, if the change it makes in the end
does. -/
theorem nodup_names_change? {fresh : TableForm} {f : TableForm → Entries → Option Entries}
    (hf : ∀ form entries entries', entries.names.Nodup → f form entries = some entries' →
      entries'.names.Nodup)
    {path : List Key} {form : TableForm} (h : entries.names.Nodup)
    (hchange : change? fresh f path form entries = some entries') : entries'.names.Nodup := by
  -- one step of the path is enough: what lies further down has keys of its own
  cases path with
  | nil => exact hf form entries entries' h hchange
  | cons key path =>
    rw [change?] at hchange
    split at hchange
    · next hfree =>
      obtain ⟨inner, -, hinner⟩ := Option.bind_eq_some_iff.mp hchange
      cases hinner
      exact nodup_names_append h (key, key.span, .table fresh inner) hfree
    · split at hchange
      · cases hchange
      · obtain ⟨inner, -, hinner⟩ := Option.bind_eq_some_iff.mp hchange
        cases hinner
        rwa [names_replace]
    · split at hchange
      · split at hchange
        · cases hchange
        · obtain ⟨inner, -, hinner⟩ := Option.bind_eq_some_iff.mp hchange
          cases hinner
          rwa [names_replace]
      · cases hchange
    · cases hchange

theorem nodup_names_assign? {path : List Key} {key : Key} {span : Span} {value : Value}
    (h : entries.names.Nodup) (hassign : entries.assign? path key span value = some entries') :
    entries'.names.Nodup := by
  refine nodup_names_change? (fun form inner inner' hinner hadd => ?_) h hassign
  split at hadd
  · cases hadd
  · exact nodup_names_add? hinner hadd

theorem nodup_names_addSection? {s : Section} (h : entries.names.Nodup)
    (hadd : entries.addSection? s = some entries') : entries'.names.Nodup := by
  unfold addSection? at hadd
  split at hadd
  · refine nodup_names_change? (fun form inner inner' hinner hadd => ?_) h hadd
    obtain ⟨pairs, -, hadd⟩ := Option.bind_eq_some_iff.mp hadd
    split at hadd
    · exact nodup_names_add? hinner hadd
    · cases hadd
      rwa [names_replace]
    · cases hadd
  · refine nodup_names_change? (fun form inner inner' hinner hadd => ?_) h hadd
    split at hadd
    · obtain ⟨pairs, -, hadd⟩ := Option.bind_eq_some_iff.mp hadd
      exact nodup_names_add? hinner hadd
    · obtain ⟨pairs, -, hadd⟩ := Option.bind_eq_some_iff.mp hadd
      exact nodup_names_add? (nodup_names_erase hinner _) hadd
    · cases hadd

/-- A fold keeps the keys apart if its step does. -/
theorem nodup_names_foldlM {α : Type} {f : Entries → α → Option Entries}
    (hf : ∀ entries x entries', entries.names.Nodup → f entries x = some entries' →
      entries'.names.Nodup)
    {xs : List α} (h : entries.names.Nodup) (hfold : xs.foldlM f entries = some entries') :
    entries'.names.Nodup := by
  induction xs generalizing entries with
  | nil =>
    cases hfold
    exact h
  | cons x xs ih =>
    rw [List.foldlM_cons] at hfold
    obtain ⟨next, hnext, hrest⟩ := Option.bind_eq_some_iff.mp hfold
    exact ih (hf entries x next h hnext) hrest

/-- **The keys of a document differ.** -/
theorem nodup_names_of_document? {text : List Char} (h : document? text = some entries) :
    entries.names.Nodup := by
  obtain ⟨statements, -, h⟩ := Option.bind_eq_some_iff.mp h
  obtain ⟨before, hbefore, h⟩ := Option.bind_eq_some_iff.mp h
  have hempty : (names []).Nodup := List.nodup_nil
  have hassigned : before.names.Nodup :=
    nodup_names_foldlM (fun _ _ _ => nodup_names_assign?) hempty hbefore
  exact nodup_names_foldlM (fun _ _ _ => nodup_names_addSection?) hassigned h

end GoldenHarness.Toml.Entries

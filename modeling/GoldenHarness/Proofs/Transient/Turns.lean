import GoldenHarness.Proofs.Transient.Creation
import GoldenHarness.Transient.Moves

/-!
# What a move at a desk comes to

A file gets its path and its place from the name that was drawn for it, so files with different names
are in different places. The names have to be of one length: otherwise what is drawn for one file could
be made up for by what the other is called after.

A move comes to one of a few changes, which are listed once and for all. The list takes it for granted
that no directory is in the place of a file.
-/

namespace GoldenHarness

/-- The names of a source are all of one length and are no paths, as names of six letters are. -/
def NameSource.IsUniform (names : NameSource) : Prop :=
  ∃ n, ∀ a, (names a).length = n ∧ Path.slash ∉ names a

/-- Of the first `n` names of a source, no two are the same. -/
def NameSource.IsFresh (names : NameSource) (n : Nat) : Prop :=
  ∀ a b, a < b → b < n → names a ≠ names b

theorem NameSource.IsFresh.mono {names : NameSource} {n n' : Nat} (h : names.IsFresh n')
    (hn : n ≤ n') : names.IsFresh n :=
  fun a b hab hb => h a b hab (hb.trans_le hn)

namespace Transient

variable {names : NameSource} {a b : Nat} {t u : Transient}

/-! ## Names -/

/-- What a transient file with a drawn name is called ends with. -/
def ending (drawn : Bytes) : Bytes := drawn ++ Bytes.ofString ".log"

/-- A transient file has its name from a draw: so its path says, and so does its place. -/
structure IsNamed (names : NameSource) (a : Nat) (t : Transient) : Prop where
  /-- The path ends with the name. -/
  path : ending (names a) <:+ t.path
  /-- The file is in its place under the name. -/
  location : ∃ last, t.location.getLast? = some last ∧ ending (names a) <:+ last

theorem getLast?_ending (drawn : Bytes) : (ending drawn).getLast? = some 0x67 := by
  have hlast : (Bytes.ofString ".log").getLast? = some 0x67 := by decide
  unfold ending
  rw [List.getLast?_append, hlast, Option.some_or]

theorem slash_not_mem_ending {drawn : Bytes} (h : Path.slash ∉ drawn) : Path.slash ∉ ending drawn := by
  unfold ending
  rw [List.mem_append, not_or]
  exact ⟨h, by decide⟩

/-- Of two endings with names of one length, only the same are at the end of one path. -/
theorem eq_of_endings {drawn drawn' p : Bytes} (hlength : drawn.length = drawn'.length)
    (h : ending drawn <:+ p) (h' : ending drawn' <:+ p) : drawn = drawn' := by
  have hends : ending drawn <:+ ending drawn' :=
    List.suffix_of_suffix_length_le h h' (by simp [ending, hlength])
  have heq : ending drawn = ending drawn' :=
    hends.eq_of_length (by simp [ending, hlength])
  exact List.append_cancel_right heq

theorem IsNamed.ne (huniform : names.IsUniform) (h : IsNamed names a t) (h' : IsNamed names b u)
    (hne : names a ≠ names b) : t.path ≠ u.path ∧ t.location ≠ u.location := by
  obtain ⟨n, hn⟩ := huniform
  have hlength : (names a).length = (names b).length := (hn a).1.trans (hn b).1.symm
  constructor
  · intro heq
    exact hne (eq_of_endings hlength h.path (heq ▸ h'.path))
  · intro heq
    obtain ⟨last, hlast, hending⟩ := h.location
    obtain ⟨last', hlast', hending'⟩ := h'.location
    obtain rfl : last = last' := Option.some.inj (hlast.symm.trans (heq ▸ hlast'))
    exact hne (eq_of_endings hlength hending hending')

theorem IsNamed.getLast?_path (h : IsNamed names a t) : t.path.getLast? ≠ some Path.slash := by
  obtain ⟨q, hq⟩ := h.path
  rw [← hq, List.getLast?_append, getLast?_ending, Option.some_or]
  decide

theorem suffix_join (base p : Path) : p <:+ Path.join base p := by
  unfold Path.join
  split
  · exact List.suffix_refl p
  · split
    · exact List.suffix_append base p
    · exact (List.suffix_cons Path.slash p).trans (List.suffix_append base _)

/-! ## Creation -/

theorem createFrom_path {fs : FileSystem} {dir : Path} {stem : String} {fuel draws : Nat}
    {created : Created} (h : createFrom fs dir stem names fuel draws = .ok created) :
    ∃ k, draws ≤ k ∧ k < created.draws ∧ ending (names k) <:+ created.transient.path := by
  obtain ⟨k, hk, hlt, hpath⟩ := createFrom_path_eq h
  refine ⟨k, hk, hlt, ?_⟩
  rw [hpath]
  exact List.IsSuffix.trans ⟨_, (List.append_assoc _ _ _).symm⟩ (suffix_join dir _)

namespace Desk

variable {d d' : Desk} {i j : Nat} {m : Move} {fs : FileSystem}

theorem create_eq_ok {dir : Path} {stem : String} (huniform : names.IsUniform)
    (h : d.create dir stem names = .ok (t, d')) :
    ∃ a draws, d.draws ≤ a ∧ a < draws ∧ IsNamed names a t ∧
      d.files.locate t.path = .ok (.free t.location) ∧
      d' = ⟨d.files.insert t.location (.file [] false), d.held ++ [some t], draws⟩ := by
  unfold create at h
  split at h
  · cases h
  · next created hcreated =>
    cases h
    obtain ⟨k, -, hk, hpath⟩ := createFrom_path hcreated
    obtain ⟨hfree, hfiles⟩ := FileSystem.createNew_eq_ok (createFrom_eq_ok hcreated)
    obtain ⟨n, hn⟩ := huniform
    have hslash := slash_not_mem_ending (hn (d.draws + k)).2
    have hne : ending (names (d.draws + k)) ≠ [] := by
      intro hempty
      have hlast := getLast?_ending (names (d.draws + k))
      rw [hempty] at hlast
      cases hlast
    refine ⟨d.draws + k, _, Nat.le_add_right _ _, Nat.add_lt_add_left hk _, ⟨hpath, ?_⟩, hfree, ?_⟩
    · exact FileSystem.suffix_of_locate_free hpath hne hslash hfree
    · rw [hfiles]

/-! ## Numbers -/

theorem get?_append (files : FileSystem) (held : List (Option Transient)) (t : Transient)
    (draws i : Nat) :
    (Desk.mk files (held ++ [some t]) draws).get? i =
      if i = held.length then some t else (held[i]?).join := by
  unfold get?
  rcases Nat.lt_trichotomy i held.length with hlt | heq | hgt
  · rw [List.getElem?_append_left hlt, if_neg hlt.ne]
  · rw [heq, List.getElem?_concat_length, if_pos rfl]
    rfl
  · rw [if_neg hgt.ne', List.getElem?_eq_none (by simp; omega),
      List.getElem?_eq_none hgt.le]

theorem get?_set (files : FileSystem) (held : List (Option Transient)) (draws i j : Nat) :
    (Desk.mk files (held.set i none) draws).get? j = if j = i then none else (held[j]?).join := by
  unfold get?
  rw [List.getElem?_set]
  by_cases h : j = i
  · subst h
    by_cases hj : j < held.length <;> simp [hj]
  · rw [if_neg (Ne.symm h), if_neg h]

theorem lt_length_of_get? (h : d.get? i = some t) : i < d.held.length := by
  by_contra hlt
  unfold get? at h
  rw [List.getElem?_eq_none (Nat.not_lt.mp hlt)] at h
  cases h

theorem mem_live : t ∈ d.live ↔ ∃ i, d.get? i = some t := by
  rw [live, List.mem_filterMap]
  constructor
  · rintro ⟨held, hmem, hheld⟩
    obtain ⟨i, hi⟩ := List.mem_iff_getElem?.mp hmem
    exact ⟨i, by rw [get?, hi]; exact hheld⟩
  · rintro ⟨i, hi⟩
    exact ⟨some t, List.mem_of_getElem? (Option.join_eq_some_iff.mp hi), rfl⟩

/-- The places of the transient files in use. -/
def places (d : Desk) : List Location := d.live.map Transient.location

theorem mem_places {loc : Location} : loc ∈ d.places ↔ ∃ i t, d.get? i = some t ∧ t.location = loc := by
  simp only [places, List.mem_map, mem_live]
  exact ⟨fun ⟨t, ⟨i, hi⟩, ht⟩ => ⟨i, t, hi, ht⟩, fun ⟨i, t, hi, ht⟩ => ⟨t, ⟨i, hi⟩, ht⟩⟩

/-! ## Single moves -/

/-- What a move can come to at a desk whose files are no directories. -/
inductive Turn (names : NameSource) (d : Desk) : Move → Desk → Prop where
  /-- A file was created where nothing was, under a name that was not drawn before. -/
  | created {dir : Path} {stem : String} {t : Transient} {a draws : Nat} (hfrom : d.draws ≤ a)
      (hto : a < draws) (hnamed : IsNamed names a t)
      (hfree : d.files.locate t.path = .ok (.free t.location)) :
      Turn names d (.create dir stem)
        ⟨d.files.insert t.location (.file [] false), d.held ++ [some t], draws⟩
  /-- No file could be created. -/
  | notCreated {dir : Path} {stem : String} {draws : Nat} (hto : d.draws ≤ draws) :
      Turn names d (.create dir stem) { d with draws }
  /-- The file was closed before, or there never was one. -/
  | idle {m : Move} {i : Nat} (hnumber : m.number? = some i) (hnone : d.get? i = none) : Turn names d m d
  /-- The file was written to. -/
  | written {i : Nat} {bytes content : Bytes} {t : Transient} {x : Bool} (hheld : d.get? i = some t)
      (hfile : d.files.lookup t.location = some (.file content x)) :
      Turn names d (.write i bytes)
        { d with files := d.files.insert t.location (.file (content ++ bytes) x) }
  /-- The file had been removed, so what was written to it is not seen. -/
  | lost {i : Nat} {bytes : Bytes} {t : Transient} (hheld : d.get? i = some t)
      (hgone : d.files.lookup t.location = none) : Turn names d (.write i bytes) d
  /-- The file was removed. -/
  | unlinked {i : Nat} {t : Transient} (hheld : d.get? i = some t) :
      Turn names d (.unlink i) { d with files := d.files.erase t.location }
  /-- The file was closed. -/
  | closed {i : Nat} {t : Transient} (hheld : d.get? i = some t) :
      Turn names d (.close i)
        { d with files := d.files.erase t.location, held := d.held.set i none }

/-- A removal that fails has nothing to remove. -/
theorem remove_eq (h : fs.lookup t.location ≠ some .directory) :
    t.remove fs = .ok (fs.erase t.location) ∨
      fs.erase t.location = fs ∧ ∃ e, t.remove fs = .error e := by
  unfold remove FileSystem.removeAt
  split
  · exact Or.inl rfl
  · next hdir => exact absurd hdir h
  · next hnone => exact Or.inr ⟨FileSystem.erase_of_lookup_none hnone, _, rfl⟩

theorem unlink_eq (hheld : d.get? i = some t) (h : d.files.lookup t.location ≠ some .directory) :
    (d.unlink i).2 = { d with files := d.files.erase t.location } := by
  unfold unlink
  rw [hheld]
  dsimp only
  rcases remove_eq h with hok | ⟨herase, e, herror⟩
  · rw [hok]
  · rw [herror, herase]

theorem close_eq (hheld : d.get? i = some t) (h : d.files.lookup t.location ≠ some .directory) :
    d.close i =
      (true, { d with files := d.files.erase t.location, held := d.held.set i none }) := by
  unfold close
  rw [hheld]
  dsimp only
  rcases remove_eq h with hok | ⟨herase, e, herror⟩
  · rw [hok]
  · rw [herror, herase]

theorem close_of_get?_none (h : d.get? i = none) : d.close i = (false, d) := by
  rw [close, h]

section Creation

variable {dir : Path} {stem : String}

theorem perform_create_of_ok (h : d.create dir stem names = .ok (t, d')) :
    perform names d (.create dir stem) = d' := by
  unfold perform
  dsimp only
  rw [h]

theorem perform_create_of_error {e : IoError} (h : d.create dir stem names = .error e) :
    ∃ draws, perform names d (.create dir stem) = { d with draws } := by
  unfold perform
  dsimp only
  rw [h]
  exact ⟨_, rfl⟩

end Creation

theorem turn_perform (huniform : names.IsUniform)
    (hfiles : ∀ {i t}, d.get? i = some t → d.files.lookup t.location ≠ some .directory) (m : Move) :
    Turn names d m (perform names d m) := by
  cases m with
  | create dir stem =>
    unfold perform
    dsimp only
    split
    · next t next hcreate =>
      obtain ⟨a, draws, hfrom, hto, hnamed, hfree, rfl⟩ := create_eq_ok huniform hcreate
      exact .created hfrom hto hnamed hfree
    · exact .notCreated (Nat.le_add_right _ _)
  | write i bytes =>
    show Turn names d _ (d.write i bytes)
    unfold write
    split
    · next t hheld =>
      unfold append FileSystem.appendAt
      split
      · next content x hfile => exact .written hheld hfile
      · next hno =>
        refine .lost hheld ?_
        cases hlookup : d.files.lookup t.location with
        | none => rfl
        | some node =>
          cases node with
          | directory => exact absurd hlookup (hfiles hheld)
          | file content x => exact absurd hlookup (hno content x)
    · next hnone => exact .idle rfl hnone
  | unlink i =>
    show Turn names d _ (d.unlink i).2
    cases hheld : d.get? i with
    | none =>
      rw [unlink, hheld]
      exact .idle rfl hheld
    | some t =>
      rw [unlink_eq hheld (hfiles hheld)]
      exact .unlinked hheld
  | close i =>
    show Turn names d _ (d.close i).2
    cases hheld : d.get? i with
    | none =>
      rw [close_of_get?_none hheld]
      exact .idle rfl hheld
    | some t =>
      rw [close_eq hheld (hfiles hheld)]
      exact .closed hheld

theorem draws_le_perform (names : NameSource) (d : Desk) (m : Move) :
    d.draws ≤ (perform names d m).draws := by
  cases m with
  | create dir stem =>
    unfold perform create
    dsimp only
    split
    · next hcreate =>
      split at hcreate <;> cases hcreate
      exact Nat.le_add_right _ _
    · exact Nat.le_add_right _ _
  | write i bytes =>
    unfold perform write
    dsimp only
    split <;> exact le_refl _
  | unlink i =>
    unfold perform unlink
    dsimp only
    split
    · exact le_refl _
    · split <;> exact le_refl _
  | close i =>
    unfold perform close
    dsimp only
    split <;> exact le_refl _

end Desk

end Transient

end GoldenHarness

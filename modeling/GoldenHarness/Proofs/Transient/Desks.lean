import GoldenHarness.Proofs.Transient.Order

/-!
# Transient files that do not get in each other's way

What becomes of a file at a desk is up to the moves with its own number: it holds what is written to it
until it is removed or closed, whatever happens to other files meanwhile. Nothing is left of the files
when all are closed.
-/

namespace GoldenHarness.Transient.Desk

variable {names : NameSource} {a : Nat} {t u : Transient} {d d' : Desk} {i j : Nat} {m : Move}
  {fs : FileSystem}

/-! ## What becomes of one file -/

/-- Whether a sequence of moves removes the file with a number. -/
def IsGone (i : Nat) (moves : List Move) : Prop := .close i ∈ moves ∨ .unlink i ∈ moves

instance (i : Nat) (moves : List Move) : Decidable (IsGone i moves) :=
  inferInstanceAs (Decidable (_ ∨ _))

/-- What has become of a file in a sequence of moves, in which only the moves with its own number count:
it is in use until it is closed, and holds what was written to it until it is closed or removed. -/
structure Fares (names : NameSource) (a i : Nat) (t : Transient) (moves : List Move) (d : Desk) :
    Prop where
  /-- The number stays that of the file. -/
  number : i < d.held.length
  /-- The name stays drawn. -/
  drawn : a < d.draws
  /-- The file is in use until it is closed. -/
  held : d.get? i = if .close i ∈ moves then none else some t
  /-- The file holds what was written to it until it is gone. -/
  content : d.files.lookup t.location =
    if IsGone i moves then none else some (.file (writtenTo i moves) false)

theorem isGone_append {moves : List Move} :
    IsGone i (moves ++ [m]) ↔ IsGone i moves ∨ m = .close i ∨ m = .unlink i := by
  simp only [IsGone, List.mem_append, List.mem_singleton, eq_comm (b := m)]
  tauto

theorem writtenTo_append {moves : List Move} :
    writtenTo i (moves ++ [m]) = writtenTo i moves ++ m.bytesTo i := by
  simp [writtenTo]

section Fares

variable {moves : List Move}

/-- A file that is still in use has not been closed, and the number is that of no other file. -/
theorem Fares.eq_of_held (h : Fares names a i t moves d) (hu : d.get? i = some u) :
    .close i ∉ moves ∧ u = t := by
  have hheld := h.held
  rw [hu] at hheld
  split at hheld
  · cases hheld
  · next hclose => exact ⟨hclose, Option.some.inj hheld⟩

/-- Where another file in use is in the place of this one, this one is gone. -/
theorem Fares.lookup_of_eq (h : Fares names a i t moves d) (horderly : Orderly names fs d)
    (hu : d.get? j = some u) (hj : j ≠ i) (heq : t.location = u.location) :
    d.files.lookup t.location = none := by
  have hclose : .close i ∈ moves := by
    by_contra hopen
    have hheld := h.held
    rw [if_neg hopen] at hheld
    exact (horderly.apart hheld hu (Ne.symm hj)).2 heq
  have hgone : IsGone i moves := Or.inl hclose
  rw [h.content, if_pos hgone]

/-- The removal of another file makes no difference, even if it was in the place of this one. -/
theorem Fares.lookup_erase (h : Fares names a i t moves d) (horderly : Orderly names fs d)
    (hu : d.get? j = some u) (hj : j ≠ i) :
    (d.files.erase u.location).lookup t.location = d.files.lookup t.location := by
  rw [FileSystem.lookup_erase (horderly.files hu)]
  split
  · next heq => exact (h.lookup_of_eq horderly hu hj heq).symm
  · rfl

/-- A move with another number makes no difference. -/
theorem Fares.other (h : Fares names a i t moves d) (hnumber : m.number? ≠ some i)
    (hlength : d.held.length ≤ d'.held.length) (hdraws : d.draws ≤ d'.draws)
    (hget : d'.get? i = d.get? i)
    (hlookup : d'.files.lookup t.location = d.files.lookup t.location) :
    Fares names a i t (moves ++ [m]) d' := by
  have hclose : Move.close i ≠ m := by
    rintro rfl
    exact hnumber rfl
  have hunlink : m ≠ .unlink i := by
    rintro rfl
    exact hnumber rfl
  have hbytes : m.bytesTo i = [] := by
    cases m with
    | write j bytes =>
      have hj : j ≠ i := by
        rintro rfl
        exact hnumber rfl
      exact if_neg hj
    | _ => rfl
  refine ⟨h.number.trans_le hlength, h.drawn.trans_le hdraws, ?_, ?_⟩
  · rw [hget, h.held]
    simp [hclose]
  · rw [hlookup, h.content, writtenTo_append, hbytes, List.append_nil]
    simp [isGone_append, hclose.symm, hunlink]

theorem Fares.gone (h : Fares names a i t moves d) (hgone : IsGone i moves)
    (hopen : .close i ∈ moves ∨ m ≠ .close i) : Fares names a i t (moves ++ [m]) d := by
  refine ⟨h.number, h.drawn, ?_, ?_⟩
  · have hclose : .close i ∈ moves ++ [m] ↔ .close i ∈ moves := by
      rw [List.mem_append, List.mem_singleton, or_iff_left_of_imp]
      intro hm
      exact hopen.resolve_right (not_not.mpr hm.symm)
    rw [h.held]
    simp only [hclose]
  · rw [h.content, if_pos hgone, if_pos (isGone_append.mpr (Or.inl hgone))]

theorem Fares.turn_other (huniform : names.IsUniform) (hnamed : IsNamed names a t)
    (h : Fares names a i t moves d) (horderly : Orderly names fs d) (hturn : Turn names d m d')
    (hfresh : names.IsFresh d'.draws) (hnumber : m.number? ≠ some i) :
    Fares names a i t (moves ++ [m]) d' := by
  have hne {j : Nat} (hm : m.number? = some j) : j ≠ i := by
    rintro rfl
    exact hnumber hm
  cases hturn with
  | @created _ _ u b draws hfrom hto hunamed hfree =>
    have hplace := (hnamed.ne huniform hunamed (hfresh a b (h.drawn.trans_le hfrom) hto)).2
    refine h.other hnumber (by simp) (hfrom.trans hto.le) ?_ ?_
    · rw [get?_append, if_neg h.number.ne]
      rfl
    · exact FileSystem.lookup_insert_of_ne _ _ hplace
  | notCreated hto => exact h.other hnumber (le_refl _) hto rfl rfl
  | idle => exact h.other hnumber (le_refl _) (le_refl _) rfl rfl
  | @written j bytes content u x hheld hfile =>
    refine h.other hnumber (le_refl _) (le_refl _) rfl ?_
    refine FileSystem.lookup_insert_of_ne _ _ fun heq => ?_
    have hnone := h.lookup_of_eq horderly hheld (hne rfl) heq
    rw [heq, hfile] at hnone
    cases hnone
  | lost => exact h.other hnumber (le_refl _) (le_refl _) rfl rfl
  | @unlinked j u hheld =>
    refine h.other hnumber (le_refl _) (le_refl _) rfl ?_
    exact h.lookup_erase horderly hheld (hne rfl)
  | @closed j u hheld =>
    refine h.other hnumber (by simp) (le_refl _) ?_ (h.lookup_erase horderly hheld (hne rfl))
    rw [get?_set, if_neg (hne rfl).symm]
    rfl

/-- What a move with the number of the file comes to: something more is written, or the file is gone, or
it had been gone before. -/
theorem Fares.turn_own (h : Fares names a i t moves d) (horderly : Orderly names fs d)
    (hturn : Turn names d m d') (hnumber : m.number? = some i) :
    Fares names a i t (moves ++ [m]) d' := by
  cases hturn with
  | created => cases hnumber
  | notCreated => cases hnumber
  | @idle _ j hj hnone =>
    obtain rfl : j = i := Option.some.inj (hj.symm.trans hnumber)
    have hclose : .close j ∈ moves := by
      by_contra hopen
      have hheld := h.held
      rw [if_neg hopen, hnone] at hheld
      cases hheld
    exact h.gone (Or.inl hclose) (Or.inl hclose)
  | @written j bytes content u x hheld hfile =>
    obtain rfl : j = i := Option.some.inj hnumber
    obtain ⟨hopen, rfl⟩ := h.eq_of_held hheld
    have hcontent := h.content
    rw [hfile] at hcontent
    split at hcontent
    · cases hcontent
    · next hthere =>
      obtain ⟨rfl, rfl⟩ := Node.file.inj (Option.some.inj hcontent)
      have hstill : ¬ IsGone j (moves ++ [.write j bytes]) := by
        simpa [isGone_append] using hthere
      refine ⟨h.number, h.drawn, ?_, ?_⟩
      · show d.get? j = _
        rw [hheld, if_neg (by simpa using hopen)]
      · show (d.files.insert u.location _).lookup _ = _
        rw [FileSystem.lookup_insert (horderly.files hheld), if_pos rfl, if_neg hstill,
          writtenTo_append, Move.bytesTo, if_pos rfl]
  | @lost j bytes u hheld hgone =>
    obtain rfl : j = i := Option.some.inj hnumber
    obtain ⟨-, rfl⟩ := h.eq_of_held hheld
    refine h.gone ?_ (Or.inr nofun)
    by_contra hthere
    have hcontent := h.content
    rw [if_neg hthere, hgone] at hcontent
    cases hcontent
  | @unlinked j u hheld =>
    obtain rfl : j = i := Option.some.inj hnumber
    obtain ⟨hopen, rfl⟩ := h.eq_of_held hheld
    refine ⟨h.number, h.drawn, ?_, ?_⟩
    · show d.get? j = _
      rw [hheld, if_neg (by simpa using hopen)]
    · rw [if_pos (isGone_append.mpr (Or.inr (Or.inr rfl)))]
      exact (FileSystem.lookup_erase (horderly.files hheld) _).trans (if_pos rfl)
  | @closed j u hheld =>
    obtain rfl : j = i := Option.some.inj hnumber
    obtain ⟨-, rfl⟩ := h.eq_of_held hheld
    refine ⟨by simpa using h.number, h.drawn, ?_, ?_⟩
    · rw [get?_set, if_pos rfl, if_pos (by simp)]
    · rw [if_pos (isGone_append.mpr (Or.inr (Or.inl rfl)))]
      exact (FileSystem.lookup_erase (horderly.files hheld) _).trans (if_pos rfl)

theorem Fares.turn (huniform : names.IsUniform) (hnamed : IsNamed names a t)
    (h : Fares names a i t moves d) (horderly : Orderly names fs d) (hturn : Turn names d m d')
    (hfresh : names.IsFresh d'.draws) : Fares names a i t (moves ++ [m]) d' := by
  by_cases hnumber : m.number? = some i
  · exact h.turn_own horderly hturn hnumber
  · exact h.turn_other huniform hnamed horderly hturn hfresh hnumber

end Fares

theorem draws_le_after (names : NameSource) (fs : FileSystem) (earlier later : List Move) :
    (after names fs earlier).draws ≤ (after names fs (earlier ++ later)).draws := by
  induction later using List.reverseRecOn with
  | nil => rw [List.append_nil]
  | append_singleton later m ih =>
    rw [← List.append_assoc, after_append]
    exact ih.trans (draws_le_perform names _ m)

/-- Every file that is created fares as the moves with its number say. -/
theorem fares_after (huniform : names.IsUniform) {earlier later : List Move} {dir : Path}
    {stem : String} (hcreate : (after names fs earlier).create dir stem names = .ok (t, d))
    (hfresh : names.IsFresh (after names fs (earlier ++ .create dir stem :: later)).draws) :
    ∃ a, IsNamed names a t ∧ Fares names a (after names fs earlier).held.length t later
      (after names fs (earlier ++ .create dir stem :: later)) := by
  have hfirst : after names fs (earlier ++ [.create dir stem]) = d := by
    rw [after_append, perform_create_of_ok hcreate]
  obtain ⟨a, draws, hfrom, hto, hnamed, hfree, rfl⟩ := create_eq_ok huniform hcreate
  refine ⟨a, hnamed, ?_⟩
  -- from the last move backwards: the names drawn before it are fresh because those drawn in all are
  induction later using List.reverseRecOn with
  | nil =>
    have hdir : (after names fs earlier).files.lookup t.location ≠ some .directory := by
      simp [FileSystem.lookup_of_locate_free hfree]
    rw [hfirst]
    refine ⟨by simp, hto, ?_, ?_⟩
    · rw [get?_append, if_pos rfl]
      rfl
    · exact (FileSystem.lookup_insert hdir _ _).trans (if_pos rfl)
  | append_singleton later m ih =>
    have happend : earlier ++ .create dir stem :: (later ++ [m]) =
        (earlier ++ .create dir stem :: later) ++ [m] := by simp
    rw [happend] at hfresh ⊢
    have hbefore := hfresh.mono (draws_le_after names fs _ [m])
    have horderly := orderly_after huniform hbefore
    rw [after_append] at hfresh ⊢
    exact (ih hbefore).turn huniform hnamed horderly (turn_perform huniform horderly.files m) hfresh

/-! ## All moves at once -/

/-- A file that is created: where nothing was, there is an empty file, and nothing else is changed. -/
structure Creates (d : Desk) (t : Transient) (next : Desk) : Prop where
  /-- There was nothing under the path of the file. -/
  free : d.files.locate t.path = .ok (.free t.location)
  /-- There is an empty file. -/
  found : next.files.locate t.path = .ok (.found t.location (.file [] false))
  /-- Everything else is as it was. -/
  elsewhere : ∀ loc, loc ≠ t.location → next.files.lookup loc = d.files.lookup loc
  /-- The file is in use under the next number. -/
  held : next.held = d.held ++ [some t]

/-- **Transient files do not get in each other's way.** Files are created, written, removed and closed
in any order, and of the names drawn meanwhile no two are the same.

* A creation that succeeds makes one empty file where nothing was. From then on, the file is in use until
  it is closed, and holds what was written to it, one after the other, until it is closed or removed.
  A creation that fails changes nothing.
* The files in use have different paths.
* Whatever is closed leaves nothing behind and everything else as it is; if the file had been removed,
  nothing is changed. Closing it again does nothing.
* When no file is in use, everything is as it was at first, and so it is when all are closed. -/
theorem after_keeps_apart (huniform : names.IsUniform) {moves : List Move}
    (hfresh : names.IsFresh (after names fs moves).draws) :
    let d := after names fs moves
    (∀ earlier dir stem later, moves = earlier ++ .create dir stem :: later →
      let before := after names fs earlier
      let next := perform names before (.create dir stem)
      let i := before.held.length
      match before.create dir stem names with
      | .error _ => next.files = before.files ∧ next.held = before.held
      | .ok (t, made) => next = made ∧ Creates before t made ∧
        (d.get? i = if .close i ∈ later then none else some t) ∧
        d.files.locate t.path = .ok (if IsGone i later then .free t.location
          else .found t.location (.file (writtenTo i later) false))) ∧
    (d.live.map Transient.path).Nodup ∧
    (∀ i, match d.get? i with
      | none => d.close i = (false, d)
      | some t => ∃ next, d.close i = (true, next) ∧ Closes d i t next) ∧
    (d.live = [] → d.files = fs) ∧ d.closeAll.files = fs := by
  intro d
  have horderly : Orderly names fs d := orderly_after huniform hfresh
  refine ⟨?_, horderly.nodup_paths, fun i => ?_, horderly.files_of_live_nil,
    horderly.files_closeAll⟩
  · rintro earlier dir stem later rfl before next i
    have hbefore : Orderly names fs before :=
      orderly_after huniform (hfresh.mono (draws_le_after names fs earlier _))
    cases hcreate : before.create dir stem names with
    | error e =>
      obtain ⟨draws, hnext⟩ : ∃ draws, next = { before with draws } :=
        perform_create_of_error hcreate
      rw [hnext]
      exact ⟨rfl, rfl⟩
    | ok result =>
      obtain ⟨t, made⟩ := result
      have hnext : next = made := perform_create_of_ok hcreate
      obtain ⟨a, hnamed, hfares⟩ := fares_after huniform hcreate hfresh
      obtain ⟨_, draws, -, -, -, hfree, hmade⟩ := create_eq_ok huniform hcreate
      have hpath := hnamed.getLast?_path
      refine ⟨hnext, ?_, hfares.held, ?_⟩
      · rw [hmade]
        exact ⟨hfree, FileSystem.locate_insert_of_free _ hpath hfree,
          fun loc hloc => FileSystem.lookup_insert_of_ne _ _ hloc, rfl⟩
      · rw [horderly.locate_eq hpath (hbefore.locate_rest hpath hfree), hfares.content]
        split <;> rfl
  · cases hheld : d.get? i with
    | none => exact close_of_get?_none hheld
    | some t =>
      obtain ⟨next, hclose, -, hcloses⟩ := horderly.close hheld
      exact ⟨next, hclose, hcloses⟩

namespace Sample

/-- Two names, and then the same over and over. -/
def source : NameSource
  | 0 => Bytes.ofString "aaaaaa"
  | 1 => Bytes.ofString "bbbbbb"
  | _ => Bytes.ofString "cccccc"

/-- What happens to the first of two files after it was created. -/
def later : List Move :=
  [.create Path.dot "trace", .write 0 [0x78], .unlink 1, .write 1 [0x79], .write 0 [0x7A], .close 1]

end Sample

/-- One file is written to while another one, which had been removed, is closed. -/
theorem after_keeps_written_file :
    let files : FileSystem := ⟨[], [([Bytes.ofString "tool"], .file [] true)]⟩
    let d := after Sample.source files (.create Path.dot "trace" :: Sample.later)
    d.files.locate (Bytes.ofString "/./.trace.aaaaaa.log") =
        .ok (.found [Bytes.ofString ".trace.aaaaaa.log"] (.file [0x78, 0x7A] false)) ∧
      d.closeAll.files = files := by
  intro files d
  have huniform : Sample.source.IsUniform := by
    refine ⟨6, fun a => ?_⟩
    match a with
    | 0 => decide
    | 1 => decide
    | _ + 2 => exact show (Bytes.ofString "cccccc").length = 6 ∧ _ ∉ Bytes.ofString "cccccc" by decide
  have hfresh : Sample.source.IsFresh d.draws := by
    have hdraws : d.draws = 2 := by decide
    intro a b hab hb
    obtain ⟨rfl, rfl⟩ : a = 0 ∧ b = 1 := by omega
    decide
  obtain ⟨hcreated, -, -, -, hclosed⟩ := after_keeps_apart huniform hfresh
  refine ⟨?_, hclosed⟩
  exact (hcreated [] Path.dot "trace" Sample.later rfl).2.2.2

end GoldenHarness.Transient.Desk

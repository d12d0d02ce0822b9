import GoldenHarness.Proofs.Diff.Golden
import GoldenHarness.Proofs.Diff.Runs

/-!
# The context of changes

A hunk shows three unchanged lines before its first change and after its last one, or all there are up
to the end of the text. Between a change of a hunk and the next one there are at most six unchanged
lines, and between two hunks some lines are left out. So it is settled by the number of unchanged lines
between two changes whether they are shown together.

This rests on the stretches of a script: kept lines and changes come in turn, and no change is empty.
-/

namespace GoldenHarness.Diff

variable {α : Type}

/-! ## Stretches in turn -/

namespace Stretch

/-- Stretches in turn, the first of them a change or not: changes that are not empty, and all kept lines
that stand between two of them. -/
inductive InTurn : Bool → List (Stretch α) → Prop where
  | nil {b : Bool} : InTurn b []
  | kept {l : List α} {o n : Nat} {rest : List (Stretch α)} (hrest : InTurn true rest) :
      InTurn false (.kept l o n :: rest)
  | changed {r a : List α} {o n : Nat} {rest : List (Stretch α)} (hlines : r ≠ [] ∨ a ≠ [])
      (hrest : InTurn false rest) : InTurn true (.changed r a o n :: rest)

theorem inTurn_push_kept {b : Bool} {stretches : List (Stretch α)} (h : InTurn b stretches)
    (l : List α) (o n : Nat) : InTurn false (push (.kept l o n) stretches) := by
  cases h with
  | nil => exact .kept .nil
  | kept hrest => exact .kept hrest
  | changed hlines hrest => exact .kept (.changed hlines hrest)

theorem inTurn_push_changed {b : Bool} {stretches : List (Stretch α)} (h : InTurn b stretches)
    {r a : List α} (hlines : r ≠ [] ∨ a ≠ []) (o n : Nat) :
    InTurn true (push (.changed r a o n) stretches) := by
  cases h with
  | nil => exact .changed hlines .nil
  | kept hrest => exact .changed hlines (.kept hrest)
  | changed hlines' hrest =>
    refine .changed ?_ hrest
    rcases hlines with hr | ha
    · exact Or.inl (List.append_ne_nil_of_left_ne_nil hr _)
    · exact Or.inr (List.append_ne_nil_of_left_ne_nil ha _)

/-- The stretches of a script without empty changes are in turn. -/
theorem inTurn_ofScript {script : List (Edit α)} (h : IsFull script) :
    ∃ b, InTurn b (ofScript script) := by
  induction script with
  | nil => exact ⟨true, .nil⟩
  | cons e script ih =>
    obtain ⟨hfull, hscript⟩ := isFull_cons.mp h
    obtain ⟨b, hturn⟩ := ih hscript
    show ∃ b, InTurn b (push (ofEdit e) (ofScript script))
    unfold Edit.IsFull at hfull
    cases hkind : e.kind with
    | keep =>
      rw [ofEdit, hkind]
      exact ⟨false, inTurn_push_kept hturn _ _ _⟩
    | delete =>
      rw [ofEdit, hkind]
      exact ⟨true, inTurn_push_changed hturn (Or.inl (hfull (by simp [hkind]))) _ _⟩
    | insert =>
      rw [ofEdit, hkind]
      exact ⟨true, inTurn_push_changed hturn (Or.inr (hfull (by simp [hkind]))) _ _⟩

end Stretch

/-! ## What a hunk shows around its changes -/

/-- A hunk shows `radius` lines before and after its changes, or all there are, where `above` and
`below` are left out before and after it. -/
structure Block.HasContext (radius : Nat) (above below : List Line) (b : Block) : Prop where
  /-- Something is changed. -/
  changed : ∃ m ∈ b.lines, m.mark = '-' ∨ m.mark = '+'
  /-- No more lines than that are shown before the first change, -/
  leading_le : leading b.lines ≤ radius
  /-- and no fewer where lines are left out. -/
  leading_eq : above ≠ [] → leading b.lines = radius
  /-- No more lines than that are shown after the last change, -/
  trailing_le : trailing b.lines ≤ radius
  /-- and no fewer where lines are left out. -/
  trailing_eq : below ≠ [] → trailing b.lines = radius
  /-- Changes in a hunk are no further apart than that on both sides. -/
  close : CloseWithin (2 * radius) b.lines

/-- Hunks show the context of their changes, where `above` is left out before them and a gap after each
of them. Between two hunks there is something in the gap. -/
inductive Spaced (radius : Nat) : (above : List Line) → List Block → (gaps : List (List Line)) →
    Prop where
  | last {above below : List Line} {b : Block} (hb : b.HasContext radius above below) :
      Spaced radius above [b] [below]
  | cons {above gap : List Line} {b : Block} {blocks : List Block} {gaps : List (List Line)}
      (hb : b.HasContext radius above gap) (hgap : gap ≠ []) (hrest : Spaced radius gap blocks gaps) :
      Spaced radius above (b :: blocks) (gap :: gaps)

/-- A line of the two texts, and the number of the hunk that shows it, if one does. -/
structure Row where
  /-- The number of the hunk. -/
  hunk : Option Nat
  /-- The line. -/
  line : Marked
deriving DecidableEq, Repr

/-- A line that is left out. -/
def Row.omitted (line : Line) : Row := ⟨none, ⟨' ', line⟩⟩

/-- The lines of hunks, numbered from `i`, and of the gaps after them. -/
def rowsFrom (i : Nat) : List Block → (gaps : List (List Line)) → List Row
  | b :: blocks, gap :: gaps =>
    b.lines.map (Row.mk (some i)) ++ (gap.map Row.omitted ++ rowsFrom (i + 1) blocks gaps)
  | _, _ => []

/-- The lines of two texts, of which `first` are left out before the hunks. -/
def rows (first : List Line) (blocks : List Block) (gaps : List (List Line)) : List Row :=
  first.map Row.omitted ++ rowsFrom 0 blocks gaps

/-- The lines of the old side. -/
def oldSide (lines : List Marked) : List Line :=
  (lines.filter fun m => m.mark = ' ' ∨ m.mark = '-').map Marked.line

/-- The lines of the new side. -/
def newSide (lines : List Marked) : List Line :=
  (lines.filter fun m => m.mark = ' ' ∨ m.mark = '+').map Marked.line

/-! ## Hunks that are being formed -/

/-- The lines of a hunk that is being formed, where `above` is left out before it and a change may
follow. -/
structure IsBegun (radius : Nat) (above : List Line) (lines : List Marked) : Prop where
  leading_le : leading lines ≤ radius
  leading_eq : above ≠ [] → leading lines = radius
  trailing_le : trailing lines ≤ 2 * radius
  close : CloseWithin (2 * radius) lines

/-- The lines of a hunk that is being formed, after a change. -/
structure EndsChanged (radius : Nat) (above : List Line) (lines : List Marked) : Prop extends
    IsBegun radius above lines where
  changed : ∃ m ∈ lines, m.mark = '-' ∨ m.mark = '+'
  trailing_eq : trailing lines = 0

section Forming

variable {radius : Nat} {above : List Line} {lines : List Marked}

theorem isChange_of_mark {m : Marked} (h : m.mark = '-' ∨ m.mark = '+') : m.isChange := by
  rcases h with h | h <;> simp [Marked.isChange, h]

/-- The marked lines of what is kept. -/
def keptLines (l : List Line) : List Marked := l.map (Marked.mk ' ')

theorem not_isChange_of_mem_keptLines {l : List Line} {m : Marked} (h : m ∈ keptLines l) :
    ¬ m.isChange := by
  obtain ⟨line, -, rfl⟩ := List.mem_map.mp h
  exact Bool.false_ne_true

theorem length_keptLines (l : List Line) : (keptLines l).length = l.length := List.length_map _

theorem mark_of_mem_changed {r a : List Line} {o n : Nat} {m : Marked}
    (h : m ∈ (Stretch.changed r a o n).marked) : m.mark = '-' ∨ m.mark = '+' := by
  rcases List.mem_append.mp h with h | h
  · obtain ⟨line, -, rfl⟩ := List.mem_map.mp h
    exact Or.inl rfl
  · obtain ⟨line, -, rfl⟩ := List.mem_map.mp h
    exact Or.inr rfl

/-- A hunk may begin with some of the kept lines before its first change. -/
theorem isBegun_keptLines {l : List Line} (hle : l.length ≤ radius)
    (heq : above ≠ [] → l.length = radius) : IsBegun radius above (keptLines l) := by
  have hkept : ∀ m ∈ keptLines l, ¬ m.isChange := fun m => not_isChange_of_mem_keptLines
  have hleading : leading (keptLines l) = l.length := by
    rw [leading_of_unchanged hkept, length_keptLines]
  have htrailing : trailing (keptLines l) = l.length := by
    have h := trailing_append_of_unchanged hkept []
    rwa [List.nil_append, length_keptLines] at h
  exact ⟨by omega, fun habove => hleading.trans (heq habove), by omega,
    closeWithin_of_unchanged hkept⟩

theorem IsBegun.append_change (h : IsBegun radius above lines) {change : List Marked}
    (hne : change ≠ []) (hchange : ∀ m ∈ change, m.mark = '-' ∨ m.mark = '+') :
    EndsChanged radius above (lines ++ change) := by
  have hall : ∀ m ∈ change, m.isChange := fun m hm => isChange_of_mark (hchange m hm)
  obtain ⟨m, tail, rfl⟩ := List.exists_cons_of_ne_nil hne
  have hm := hall m List.mem_cons_self
  have hleading : leading (lines ++ m :: tail) = leading lines := leading_append_change hm _ _
  have htrailing : trailing (lines ++ m :: tail) = 0 := by
    rw [← List.dropLast_concat_getLast hne, ← List.append_assoc]
    exact trailing_append_change (hall _ (List.getLast_mem hne)) _
  refine ⟨⟨?_, ?_, ?_, ?_⟩, ⟨m, by simp, hchange m List.mem_cons_self⟩, htrailing⟩
  · rw [hleading]
    exact h.leading_le
  · rw [hleading]
    exact h.leading_eq
  · rw [htrailing]
    exact Nat.zero_le _
  · -- the run before the change is the one that `lines` ends with
    refine h.close.append (closeWithin_of_changes hall) ?_
    rw [leading_cons, if_pos hm]
    exact h.trailing_le

section Kept

variable {l : List Line}

/-- Kept lines may follow a change as far as another change may follow them. -/
theorem EndsChanged.append_kept (h : EndsChanged radius above lines) (hl : l.length ≤ 2 * radius) :
    IsBegun radius above (lines ++ keptLines l) ∧ trailing (lines ++ keptLines l) = l.length := by
  have hkept : ∀ m ∈ keptLines l, ¬ m.isChange := fun m => not_isChange_of_mem_keptLines
  obtain ⟨m, hm, hmark⟩ := h.changed
  have hleading : leading (lines ++ keptLines l) = leading lines :=
    leading_append_of_change ⟨m, hm, isChange_of_mark hmark⟩ _
  have htrailing : trailing (lines ++ keptLines l) = l.length := by
    rw [trailing_append_of_unchanged hkept, h.trailing_eq, length_keptLines, Nat.add_zero]
  refine ⟨⟨?_, ?_, ?_, ?_⟩, htrailing⟩
  · rw [hleading]
    exact h.leading_le
  · rw [hleading]
    exact h.leading_eq
  · rwa [htrailing]
  · refine h.close.append (closeWithin_of_unchanged hkept) ?_
    rwa [h.trailing_eq, leading_of_unchanged hkept, length_keptLines, Nat.zero_add]

theorem EndsChanged.hasContext (h : EndsChanged radius above lines) {b : Block} {below : List Line}
    (hlines : b.lines = lines ++ keptLines l) (hle : l.length ≤ radius)
    (heq : below ≠ [] → l.length = radius) : b.HasContext radius above below := by
  have hkept : l.length ≤ 2 * radius := by omega
  obtain ⟨hbegun, htrailing⟩ := h.append_kept hkept
  obtain ⟨m, hm, hmark⟩ := h.changed
  rw [← hlines] at hbegun htrailing
  refine ⟨⟨m, hlines ▸ List.mem_append_left _ hm, hmark⟩, hbegun.leading_le, hbegun.leading_eq,
    ?_, ?_, hbegun.close⟩
  · rwa [htrailing]
  · exact fun hbelow => htrailing.trans (heq hbelow)

end Kept

end Forming

namespace Hunk

/-- The lines of a hunk that is being formed, the latest stretch of which is held first. -/
def formed (held : Hunk Line) : List Marked := held.reverse.flatMap Stretch.marked

theorem formed_cons (s : Stretch Line) (held : Hunk Line) :
    formed (s :: held) = formed held ++ s.marked := by
  simp [formed]

/-- What is known of a hunk that is being formed, where a change comes next or not. -/
def Forms (radius : Nat) (above : List Line) (held : Hunk Line) : Bool → Prop
  | true => IsBegun radius above (formed held)
  | false => EndsChanged radius above (formed held)

/-- Hunks show some lines but those in the gaps, with the context of their changes. -/
def Shows (radius : Nat) (above : List Line) (hunks : List (Hunk Line)) (lines : List Marked) : Prop :=
  ∃ gaps, Spaced radius above (hunks.map Hunk.block) gaps ∧
    ∀ i, (rowsFrom i (hunks.map Hunk.block) gaps).map Row.line = lines

section Group

variable {radius : Nat} {above l : List Line} {held hunk : Hunk Line} {hunks : List (Hunk Line)}
  {lines more : List Marked}

theorem map_line_rowsFrom_cons (i : Nat) (b : Block) (blocks : List Block) (gap : List Line)
    (gaps : List (List Line)) :
    (rowsFrom i (b :: blocks) (gap :: gaps)).map Row.line =
      b.lines ++ (keptLines gap ++ (rowsFrom (i + 1) blocks gaps).map Row.line) := by
  simp [rowsFrom, keptLines, Row.omitted, Function.comp_def]

theorem map_line_rows (first : List Line) (blocks : List Block) (gaps : List (List Line)) :
    (rows first blocks gaps).map Row.line =
      keptLines first ++ (rowsFrom 0 blocks gaps).map Row.line := by
  simp [rows, keptLines, Row.omitted, Function.comp_def]

theorem keptLines_append (l l' : List Line) : keptLines (l ++ l') = keptLines l ++ keptLines l' :=
  List.map_append

/-- The last hunk ends with the first of the kept lines after its last change. -/
theorem shows_last (h : EndsChanged radius above lines)
    (hhunk : hunk.block.lines = lines ++ keptLines (l.take radius)) :
    Shows radius above [hunk] (lines ++ keptLines l) := by
  have hcontext : hunk.block.HasContext radius above (l.drop radius) := by
    refine h.hasContext hhunk (List.length_take_le _ _) fun hbelow => ?_
    have hlt : radius < l.length := by simpa using hbelow
    exact List.length_take_of_le (Nat.le_of_lt hlt)
  refine ⟨[l.drop radius], .last hcontext, fun i => ?_⟩
  rw [List.map_singleton, map_line_rowsFrom_cons, hhunk]
  show lines ++ keptLines (l.take radius) ++ (keptLines (l.drop radius) ++ []) = _
  rw [List.append_nil, List.append_assoc, ← keptLines_append, List.take_append_drop]

/-- Where kept lines are long, the first of them end a hunk, and a hunk that is begun with the last of
them comes next. -/
theorem shows_cons_of_long (h : EndsChanged radius above lines)
    (hhunk : hunk.block.lines = lines ++ keptLines (l.take radius)) (hlong : 2 * radius < l.length)
    (hnext : Shows radius ((l.take (l.length - radius)).drop radius) hunks
      (keptLines (l.drop (l.length - radius)) ++ more)) :
    Shows radius above (hunk :: hunks) (lines ++ (keptLines l ++ more)) := by
  obtain ⟨gaps, hspaced, hlines⟩ := hnext
  have hcontext : hunk.block.HasContext radius above ((l.take (l.length - radius)).drop radius) :=
    h.hasContext hhunk (List.length_take_le _ _) fun _ => List.length_take_of_le (by omega)
  refine ⟨(l.take (l.length - radius)).drop radius :: gaps, .cons hcontext ?_ hspaced, fun i => ?_⟩
  · simp only [ne_eq, List.drop_eq_nil_iff, List.length_take]
    omega
  · rw [List.map_cons, map_line_rowsFrom_cons, hlines, hhunk]
    have hwhole := congrArg keptLines (take_between_drop hlong)
    rw [keptLines_append, keptLines_append] at hwhole
    rw [← hwhole]
    simp only [List.append_assoc]

theorem groupFrom_nil (h : ∃ m ∈ formed held, m.mark = '-' ∨ m.mark = '+') :
    groupFrom radius held [] = [held.reverse] := by
  obtain ⟨m, hm, hmark⟩ := h
  obtain ⟨s, hs, hm⟩ := List.mem_flatMap.mp hm
  have hchanged : s.isChanged := by
    cases s with
    | kept l o n => exact absurd (isChange_of_mark hmark) (not_isChange_of_mem_keptLines hm)
    | changed => rfl
  rw [groupFrom_nil_eq, if_pos (List.any_eq_true.mpr ⟨s, List.mem_reverse.mp hs, hchanged⟩)]

/-- The hunks that are formed of stretches in turn show the context of their changes. -/
theorem shows_groupFrom {b : Bool} {stretches : List (Stretch Line)}
    (h : Stretch.InTurn b stretches) (hnext : b = true → stretches ≠ [])
    (hheld : Forms radius above held b) :
    Shows radius above (groupFrom radius held stretches)
      (formed held ++ stretches.flatMap Stretch.marked) := by
  -- on the stretches in turn: the hunk held before kept lines ends with a change, so they are all the
  -- unchanged lines up to the next change
  induction h generalizing held above with
  | @nil b =>
    cases b with
    | true => exact absurd rfl (hnext rfl)
    | false =>
      rw [groupFrom_nil hheld.changed]
      exact shows_last (l := []) hheld (by simp [keptLines, formed, block])
  | @kept l o n rest hrest ih =>
    have hfirst : formed ((Stretch.kept l o n).takeFirst radius :: held) =
        formed held ++ keptLines (l.take radius) := formed_cons _ _
    have hwhole : formed (.kept l o n :: held) = formed held ++ keptLines l := formed_cons _ _
    rw [groupFrom_kept_eq]
    split
    · next hlast =>
      obtain rfl := List.isEmpty_iff.mp hlast
      obtain ⟨m, hm, hmark⟩ := hheld.changed
      rw [groupFrom_nil ⟨m, hfirst ▸ List.mem_append_left _ hm, hmark⟩, List.flatMap_singleton]
      exact shows_last hheld hfirst
    · next hmore =>
      have hne : rest ≠ [] := fun hnil => hmore (List.isEmpty_iff.mpr hnil)
      split
      · next hlong =>
        have hlast : formed [(Stretch.kept l o n).takeLast radius] =
            keptLines (l.drop (l.length - radius)) := formed_cons _ []
        have hlength : (l.drop (l.length - radius)).length = radius := by
          rw [List.length_drop]
          omega
        have hbegun : IsBegun radius ((l.take (l.length - radius)).drop radius)
            (keptLines (l.drop (l.length - radius))) :=
          isBegun_keptLines (Nat.le_of_eq hlength) fun _ => hlength
        refine shows_cons_of_long hheld hfirst hlong ?_
        rw [← hlast] at hbegun ⊢
        exact ih (fun _ => hne) hbegun
      · next hshort =>
        have hbegun := (hheld.append_kept (Nat.le_of_not_lt hshort)).1
        rw [← hwhole] at hbegun
        rw [List.flatMap_cons, ← List.append_assoc]
        show Shows _ _ _ (formed held ++ keptLines l ++ _)
        rw [← hwhole]
        exact ih (fun _ => hne) hbegun
  | @changed r a o n rest hlines hrest ih =>
    have hne : (Stretch.changed r a o n).marked ≠ [] := by
      simpa [Stretch.marked, or_iff_not_imp_left] using hlines
    have hwhole : formed (.changed r a o n :: held) =
        formed held ++ (Stretch.changed r a o n).marked := formed_cons _ _
    have hchanged := hheld.append_change hne fun m => mark_of_mem_changed
    rw [← hwhole] at hchanged
    rw [groupFrom_changed_eq, List.flatMap_cons, ← List.append_assoc, ← hwhole]
    exact ih (fun hfalse => absurd hfalse Bool.false_ne_true) hchanged

/-- Of kept lines before the first change, only the last are shown. -/
theorem shows_group {b : Bool} {stretches : List (Stretch Line)} (h : Stretch.InTurn b stretches)
    (hchanged : stretches.any Stretch.isChanged) (radius : Nat) :
    ∃ first, ∃ gaps, Spaced radius first ((group radius stretches).map Hunk.block) gaps ∧
      (rows first ((group radius stretches).map Hunk.block) gaps).map Row.line =
        stretches.flatMap Stretch.marked := by
  cases h with
  | nil => cases hchanged
  | @kept l o n rest hrest =>
    have hne : rest ≠ [] := by
      rintro rfl
      cases hchanged
    have hlast : formed [(Stretch.kept l o n).takeLast radius] =
        keptLines (l.drop (l.length - radius)) := formed_cons _ []
    have hbegun : IsBegun radius (l.take (l.length - radius))
        (keptLines (l.drop (l.length - radius))) := by
      refine isBegun_keptLines ?_ fun habove => ?_
      · rw [List.length_drop]
        omega
      · have hlt : l.length - radius ≠ 0 := by
          intro hzero
          rw [hzero] at habove
          exact habove List.take_zero
        rw [List.length_drop]
        omega
    have hgroup : group radius (.kept l o n :: rest) =
        groupFrom radius [(Stretch.kept l o n).takeLast radius] rest := by
      rw [group_kept_eq, if_neg (by simpa using hne)]
    obtain ⟨gaps, hspaced, hshown⟩ := shows_groupFrom hrest (fun _ => hne) (hlast ▸ hbegun)
    refine ⟨l.take (l.length - radius), gaps, hgroup ▸ hspaced, ?_⟩
    rw [map_line_rows, hgroup, hshown, hlast, ← List.append_assoc, ← keptLines_append,
      List.take_append_drop]
    rfl
  | @changed r a o n rest hlines hrest =>
    have hbegun : IsBegun radius [] (keptLines []) :=
      isBegun_keptLines (Nat.zero_le _) fun hne => absurd rfl hne
    have hturn : Stretch.InTurn true (.changed r a o n :: rest) := .changed hlines hrest
    have hshows : Shows radius [] (groupFrom radius [] (.changed r a o n :: rest)) _ :=
      shows_groupFrom hturn (fun _ => List.cons_ne_nil _ _) hbegun
    obtain ⟨gaps, hspaced, hshown⟩ := hshows
    exact ⟨[], gaps, hspaced, hshown 0⟩

end Group

end Hunk

/-! ## Changes that are shown together -/

section Sharing

variable {radius i : Nat} {above gap : List Line} {b : Block} {blocks : List Block}
  {gaps : List (List Line)} {before between after : List Row} {c d r : Row}

theorem not_isChange_of_mem_omitted (h : r ∈ gap.map Row.omitted) : ¬ r.line.isChange := by
  obtain ⟨line, -, rfl⟩ := List.mem_map.mp h
  exact Bool.false_ne_true

theorem hunk_of_mem_block (h : r ∈ b.lines.map (Row.mk (some i))) : r.hunk = some i := by
  obtain ⟨line, -, rfl⟩ := List.mem_map.mp h
  rfl

theorem lines_of_block {shown : List Row} (h : b.lines.map (Row.mk (some i)) = shown) :
    b.lines = shown.map Row.line := by
  rw [← h, List.map_map]
  exact (List.map_id _).symm

theorem hunk_of_mem_rowsFrom (h : r ∈ rowsFrom i blocks gaps) (hr : r.line.isChange) :
    ∃ j, i ≤ j ∧ r.hunk = some j := by
  fun_induction rowsFrom i blocks gaps with
  | case1 i b blocks gap gaps ih =>
    rcases List.mem_append.mp h with h | h
    · exact ⟨i, Nat.le_refl i, hunk_of_mem_block h⟩
    · rcases List.mem_append.mp h with h | h
      · exact absurd hr (not_isChange_of_mem_omitted h)
      · obtain ⟨j, hj, hhunk⟩ := ih h
        exact ⟨j, by omega, hhunk⟩
  | case2 => cases h

theorem Spaced.leading_rows (h : Spaced radius above blocks gaps) (habove : above ≠ []) (i : Nat) :
    leading ((rowsFrom i blocks gaps).map Row.line) = radius := by
  have hfirst {b : Block} {below : List Line} (hb : b.HasContext radius above below)
      (more : List Marked) : leading (b.lines ++ more) = radius := by
    obtain ⟨m, hm, hmark⟩ := hb.changed
    rw [leading_append_of_change ⟨m, hm, isChange_of_mark hmark⟩, hb.leading_eq habove]
  cases h with
  | last hb =>
    rw [Hunk.map_line_rowsFrom_cons]
    exact hfirst hb _
  | cons hb hgap hrest =>
    rw [Hunk.map_line_rowsFrom_cons]
    exact hfirst hb _

/-- Two changes in a hunk have no more unchanged lines between them than would be shown around them. -/
theorem Block.HasContext.shares {below : List Line} (hb : b.HasContext radius above below)
    (h : b.lines.map (Row.mk (some i)) = before ++ c :: (between ++ d :: after))
    (hc : c.line.isChange) (hd : d.line.isChange) :
    c.hunk = d.hunk ∧
      ((∀ r ∈ between, ¬ r.line.isChange) → between.length ≤ 2 * radius) := by
  have hhunk (r : Row) (hr : r ∈ before ++ c :: (between ++ d :: after)) : r.hunk = some i :=
    hunk_of_mem_block (h ▸ hr)
  refine ⟨by rw [hhunk c (by simp), hhunk d (by simp)], fun hbetween => ?_⟩
  have hlines : b.lines = before.map Row.line ++
      c.line :: (between.map Row.line ++ d.line :: after.map Row.line) := by
    simpa using lines_of_block h
  have hclose := hb.close _ _ _ _ _ hlines hc hd (by simpa using hbetween)
  rwa [List.length_map] at hclose

/-- Between the last change of a hunk and a change after it there is all that would be shown around the
two, and the gap. -/
theorem Spaced.lt_unchanged (hrest : Spaced radius gap blocks gaps)
    (hb : b.HasContext radius above gap) (hgap : gap ≠ []) {post pre : List Row}
    (hpost : b.lines.map (Row.mk (some i)) = before ++ c :: post)
    (hpre : rowsFrom (i + 1) blocks gaps = pre ++ d :: after) (hc : c.line.isChange)
    (hd : d.line.isChange) :
    2 * radius < unchanged ((post ++ (gap.map Row.omitted ++ pre)).map Row.line) := by
  have htrailing : radius ≤ unchanged (post.map Row.line) := by
    have hlines : b.lines = before.map Row.line ++ c.line :: post.map Row.line := by
      simpa using lines_of_block hpost
    rw [← hb.trailing_eq hgap, hlines]
    exact trailing_le_unchanged hc _ _
  have hleading : radius ≤ unchanged (pre.map Row.line) := by
    rw [← hrest.leading_rows hgap (i + 1), hpre, List.map_append, List.map_cons]
    exact leading_le_unchanged hd _ _
  have homitted : unchanged ((gap.map Row.omitted).map Row.line) = gap.length := by
    rw [unchanged, List.countP_eq_length.mpr, List.length_map, List.length_map]
    intro m hm
    obtain ⟨r, hr, rfl⟩ := List.mem_map.mp hm
    simpa using not_isChange_of_mem_omitted hr
  have hlength := List.length_pos_of_ne_nil hgap
  rw [List.map_append, List.map_append, unchanged, List.countP_append, List.countP_append]
  rw [unchanged] at htrailing hleading homitted
  omega

theorem Spaced.shares (h : Spaced radius above blocks gaps)
    (hrows : rowsFrom i blocks gaps = before ++ c :: (between ++ d :: after))
    (hc : c.line.isChange) (hd : d.line.isChange) :
    (unchanged (between.map Row.line) ≤ 2 * radius → c.hunk = d.hunk) ∧
      ((∀ r ∈ between, ¬ r.line.isChange) → c.hunk = d.hunk → between.length ≤ 2 * radius) := by
  induction h generalizing i before with
  | @last above below b hb =>
    have hafter : rowsFrom (i + 1) [] [] = [] := rfl
    rw [rowsFrom, hafter, List.append_nil] at hrows
    rcases split_pair hrows with ⟨after', hin⟩ | ⟨post, pre, -, hpre, -⟩ | ⟨before', -, hin⟩
    · obtain ⟨hsame, hclose⟩ := hb.shares hin hc hd
      exact ⟨fun _ => hsame, fun hbetween _ => hclose hbetween⟩
    · have hmem : d ∈ below.map Row.omitted := hpre ▸ by simp
      exact absurd hd (not_isChange_of_mem_omitted hmem)
    · have hmem : c ∈ below.map Row.omitted := hin ▸ by simp
      exact absurd hc (not_isChange_of_mem_omitted hmem)
  | @cons above gap b blocks gaps hb hgap hrest ih =>
    have hnot {r : Row} (hr : r.line.isChange) : r ∉ gap.map Row.omitted :=
      fun hmem => not_isChange_of_mem_omitted hmem hr
    rw [rowsFrom] at hrows
    -- both changes are in the first hunk, or one is in it and one behind it, or both are behind it
    rcases split_pair hrows with ⟨after', hin⟩ | ⟨post, pre, hpost, hpre, rfl⟩ | ⟨before', -, hin⟩
    · obtain ⟨hsame, hclose⟩ := hb.shares hin hc hd
      exact ⟨fun _ => hsame, fun hbetween _ => hclose hbetween⟩
    · obtain ⟨pre, rfl, hlater⟩ := split_of_not_mem hpre (hnot hd)
      have hmany := hrest.lt_unchanged hb hgap hpost hlater hc hd
      refine ⟨fun hle => absurd hle (Nat.not_le.mpr hmany), fun _ hsame => ?_⟩
      have hmem : c ∈ b.lines.map (Row.mk (some i)) := hpost ▸ by simp
      have hmem' : d ∈ rowsFrom (i + 1) blocks gaps := hlater ▸ by simp
      have hfirst := hunk_of_mem_block hmem
      obtain ⟨j, hj, hsecond⟩ := hunk_of_mem_rowsFrom hmem' hd
      rw [hfirst, hsecond, Option.some.injEq] at hsame
      omega
    · obtain ⟨before, -, hin⟩ := split_of_not_mem hin (hnot hc)
      exact ih hin

/-- Changes with no more unchanged lines between them than would be shown around them are in the same
hunk, and a change and the next one with more are not. -/
theorem Spaced.shares_iff {first : List Line} (h : Spaced radius first blocks gaps)
    (hrows : rows first blocks gaps = before ++ c :: (between ++ d :: after))
    (hc : c.line.isChange) (hd : d.line.isChange) :
    (unchanged (between.map Row.line) ≤ 2 * radius → c.hunk = d.hunk) ∧
      ((∀ r ∈ between, ¬ r.line.isChange) → (c.hunk = d.hunk ↔ between.length ≤ 2 * radius)) := by
  obtain ⟨before, -, hin⟩ := split_of_not_mem hrows fun hmem => not_isChange_of_mem_omitted hmem hc
  obtain ⟨hshares, hclose⟩ := h.shares hin hc hd
  refine ⟨hshares, fun hbetween => ⟨hclose hbetween, fun hle => hshares ?_⟩⟩
  rw [unchanged]
  refine Nat.le_trans List.countP_le_length ?_
  rwa [List.length_map]

end Sharing

/-! ## The hunks of a difference -/

theorem sides_script (expected actual : List Char) :
    let shown := (Stretch.ofScript (script expected actual)).flatMap Stretch.marked
    oldSide shown = Line.split expected ∧ newSide shown = Line.split actual := by
  intro shown
  have hlines := Stretch.lines_ofScript (script expected actual)
  have hrelates := relates_script expected actual
  have hold : oldSide shown = _ := old_block (Stretch.ofScript (script expected actual))
  have hnew : newSide shown = _ := new_block (Stretch.ofScript (script expected actual))
  rw [hold, hnew, Hunk.before, Hunk.after, hlines.1, hlines.2]
  exact hrelates

/-- **Where the texts of two outputs differ, the difference shows three unchanged lines around each
change.** The lines of the hunks and of the gaps around them make up both texts, where nothing is
changed in the gaps.

* In each hunk something is changed. Before the first change and after the last one there are three
  unchanged lines or fewer, and not fewer where the gap is not empty. Between a change and the next one
  there are six or fewer. The gap between two hunks is not empty.
* So changes with no more than six unchanged lines between them are in the same hunk, and a change and
  the next one are so only then. -/
theorem golden_shows_context {expected actual : Bytes} {expectedName actualName : String}
    (h : Utf8.decodeLossy expected ≠ Utf8.decodeLossy actual) :
    ∃ text blocks first gaps,
      golden expected actual expectedName actualName =
          some (s!"--- {expectedName}\n+++ {actualName}\n" ++ String.ofList text) ∧
        read? text = some blocks ∧
        let lines := rows first blocks gaps
        oldSide (lines.map Row.line) = Line.split (Utf8.decodeLossy expected) ∧
          newSide (lines.map Row.line) = Line.split (Utf8.decodeLossy actual) ∧
          Spaced 3 first blocks gaps ∧
          ∀ before c between d after, lines = before ++ c :: (between ++ d :: after) →
            c.line.isChange → d.line.isChange →
              (unchanged (between.map Row.line) ≤ 6 → c.hunk = d.hunk) ∧
              ((∀ r ∈ between, ¬ r.line.isChange) → (c.hunk = d.hunk ↔ between.length ≤ 6)) := by
  obtain ⟨b, hturn⟩ := Stretch.inTurn_ofScript
    (isFull_settle_search (Line.split (Utf8.decodeLossy expected))
      (Line.split (Utf8.decodeLossy actual)))
  obtain ⟨first, gaps, hspaced, hshown⟩ :=
    Hunk.shows_group hturn (isChanged_of_ne h) contextRadius
  obtain ⟨hold, hnew⟩ := sides_script (Utf8.decodeLossy expected) (Utf8.decodeLossy actual)
  refine ⟨_, _, first, gaps, golden_of_ne h, read?_difference _ _, ?_⟩
  intro lines
  have hlines : lines.map Row.line = _ := hshown
  rw [hlines]
  exact ⟨hold, hnew, hspaced, fun before c between d after hrows hc hd =>
    hspaced.shares_iff hrows hc hd⟩

/-- Two changes with seven unchanged lines between them. -/
theorem golden_shows_context_of_distant_changes :
    let expected := Bytes.ofString "a\n1\n2\n3\n4\n5\n6\n7\nb\n"
    let actual := Bytes.ofString "c\n1\n2\n3\n4\n5\n6\n7\nd\n"
    let text := "@@ -1,4 +1,4 @@\n-a\n+c\n 1\n 2\n 3\n@@ -6,4 +6,4 @@\n 5\n 6\n 7\n-b\n+d\n"
    golden expected actual "trace.ok" "trace.log" =
        some ("--- trace.ok\n+++ trace.log\n" ++ text) ∧
      ∃ b c above between below, read? text.toList = some [b, c] ∧ between ≠ [] ∧
        b.HasContext 3 above between ∧ c.HasContext 3 between below := by
  intro expected actual text
  have hne : Utf8.decodeLossy expected ≠ Utf8.decodeLossy actual := by decide
  have hexact : golden expected actual "trace.ok" "trace.log" =
      some ("--- trace.ok\n+++ trace.log\n" ++ text) := by decide +kernel
  obtain ⟨text', blocks, first, gaps, hgolden, hread, -, -, hspaced, -⟩ :=
    @golden_shows_context _ _ "trace.ok" "trace.log" hne
  have htext : text' = text.toList := by
    have hshown : "--- trace.ok\n+++ trace.log\n" ++ String.ofList text' =
        "--- trace.ok\n+++ trace.log\n" ++ text := Option.some.inj (hgolden.symm.trans hexact)
    have hsame := congrArg String.toList hshown
    rw [String.toList_append, String.toList_append] at hsame
    rw [← List.append_cancel_left hsame, String.toList_ofList]
  have htwo : (read? text.toList).map List.length = some 2 := by decide +kernel
  rw [htext] at hread
  rw [hread, Option.map_some, Option.some.injEq] at htwo
  refine ⟨hexact, ?_⟩
  rw [hread]
  cases hspaced with
  | last => cases htwo
  | cons hb hgap hrest =>
    cases hrest with
    | last hc => exact ⟨_, _, _, _, _, rfl, hgap, hb, hc⟩
    | cons hc hgap' hmore => cases hmore <;> simp at htwo

end GoldenHarness.Diff

import GoldenHarness.Diff.Hunk
import GoldenHarness.Proofs.Diff.Position

/-!
# Hunks and the lines between them

Reading neighbouring edits together and grouping them into hunks loses no line and invents none: the
lines that the hunks leave out are the same in both lists, and with them in their places the hunks
make up each list. What was in its place stays there.
-/

namespace GoldenHarness.Diff

variable {α : Type}

namespace Stretch

/-! ## Stretches -/

theorem before_ofEdit (e : Edit α) : (ofEdit e).before = e.before := by
  unfold ofEdit Edit.before
  cases e.kind <;> rfl

theorem after_ofEdit (e : Edit α) : (ofEdit e).after = e.after := by
  unfold ofEdit Edit.after
  cases e.kind <;> rfl

/-- A stretch that changes nothing has the same lines on both sides. -/
theorem after_of_kept {s : Stretch α} (h : ¬ s.isChanged) : s.after = s.before := by
  cases s with
  | kept => rfl
  | changed => exact absurd rfl h

/-- Two stretches that are joined keep their lines. -/
theorem lines_of_join? {s t joined : Stretch α} (h : s.join? t = some joined) :
    joined.before = s.before ++ t.before ∧ joined.after = s.after ++ t.after := by
  cases s <;> cases t <;> simp only [join?, Option.some.injEq, reduceCtorEq] at h <;> subst h <;>
    exact ⟨rfl, rfl⟩

theorem lines_push (s : Stretch α) (stretches : List (Stretch α)) :
    (push s stretches).flatMap before = s.before ++ stretches.flatMap before ∧
      (push s stretches).flatMap after = s.after ++ stretches.flatMap after := by
  unfold push
  split
  · simp
  · split
    · next joined hjoined =>
      obtain ⟨hbefore, hafter⟩ := lines_of_join? hjoined
      simp [hbefore, hafter]
    · simp

/-- The stretches of a script stand for the same lines as its edits. -/
theorem lines_ofScript (script : List (Edit α)) :
    (ofScript script).flatMap before = Diff.before script ∧
      (ofScript script).flatMap after = Diff.after script := by
  induction script with
  | nil => exact ⟨rfl, rfl⟩
  | cons e script ih =>
    obtain ⟨hbefore, hafter⟩ := lines_push (ofEdit e) (ofScript script)
    exact ⟨by rw [before_cons, ← before_ofEdit, ← ih.1]; exact hbefore,
      by rw [after_cons, ← after_ofEdit, ← ih.2]; exact hafter⟩

/-- Stretches none of which changes anything stand for the same lines on both sides. -/
theorem lines_of_kept {stretches : List (Stretch α)} (h : ¬ stretches.any isChanged) :
    stretches.flatMap after = stretches.flatMap before := by
  induction stretches with
  | nil => rfl
  | cons s stretches ih =>
    simp only [List.any_cons, Bool.or_eq_true, not_or] at h
    rw [List.flatMap_cons, List.flatMap_cons, after_of_kept h.1, ih h.2]

/-- The positions that a stretch records are right. Those of a change matter only as far as it has lines
in that list. -/
def IsPlaced (i j : Nat) : Stretch α → Prop
  | .kept _ old new => old = i ∧ new = j
  | .changed removed added old new => (removed ≠ [] → old = i) ∧ (added ≠ [] → new = j)

theorem isPlaced_ofEdit {e : Edit α} {i j : Nat} (h : e.IsPlaced i j) : (ofEdit e).IsPlaced i j := by
  obtain ⟨hold, hnew⟩ := h
  unfold ofEdit
  cases hkind : e.kind with
  | keep => exact ⟨hold (by simp [hkind]), hnew (by simp [hkind])⟩
  | delete => exact ⟨fun _ => hold (by simp [hkind]), fun hne => absurd rfl hne⟩
  | insert => exact ⟨fun hne => absurd rfl hne, fun _ => hnew (by simp [hkind])⟩

/-- A position is taken from the second stretch only where the first one has no lines. -/
theorem isPlaced_of_join? {s t joined : Stretch α} {i j : Nat} (h : s.join? t = some joined)
    (hs : s.IsPlaced i j) (ht : t.IsPlaced (i + s.before.length) (j + s.after.length)) :
    joined.IsPlaced i j := by
  cases s with
  | kept l o n =>
    cases t with
    | kept l' o' n' =>
      cases h
      exact hs
    | changed => cases h
  | changed r a o n =>
    cases t with
    | kept => cases h
    | changed r' a' o' n' =>
      cases h
      obtain ⟨hold, hnew⟩ := hs
      obtain ⟨hold', hnew'⟩ := ht
      constructor
      · intro hne
        cases r with
        | nil =>
          have hne' : r' ≠ [] := by simpa using hne
          simpa [hne'] using hold' hne'
        | cons line r => simpa using hold (List.cons_ne_nil line r)
      · intro hne
        cases a with
        | nil =>
          have hne' : a' ≠ [] := by simpa using hne
          simpa [hne'] using hnew' hne'
        | cons line a => simpa using hnew (List.cons_ne_nil line a)

end Stretch

/-- Every stretch of a hunk is in its place, where the hunk stands at positions `i` and `j`. -/
def Hunk.Placed (i j : Nat) (h : Hunk α) : Prop :=
  Along (fun s : Stretch α => s.before.length) (fun s => s.after.length) Stretch.IsPlaced i j h

/-- Every hunk is in its place, where the first one stands at positions `i` and `j` and each is followed
by the lines of a gap. -/
def HunksPlaced (i j : Nat) (hunks : List (Hunk α)) (gaps : List (List α)) : Prop :=
  Along (fun p : Hunk α × List α => p.1.before.length + p.2.length)
    (fun p => p.1.after.length + p.2.length) (fun i j p => p.1.Placed i j) i j (hunks.zip gaps)

namespace Stretch

theorem placed_push {s : Stretch α} {stretches : List (Stretch α)} {i j : Nat} (hs : s.IsPlaced i j)
    (hrest : Hunk.Placed (i + s.before.length) (j + s.after.length) stretches) :
    Hunk.Placed i j (push s stretches) := by
  unfold push
  split
  · exact ⟨hs, trivial⟩
  · next t rest =>
    obtain ⟨ht, hafter⟩ := hrest
    split
    · next joined hjoined =>
      obtain ⟨hbefore, hnew⟩ := lines_of_join? hjoined
      refine ⟨isPlaced_of_join? hjoined hs ht, ?_⟩
      show Hunk.Placed (i + joined.before.length) (j + joined.after.length) rest
      rw [hbefore, hnew, List.length_append, List.length_append, ← Nat.add_assoc, ← Nat.add_assoc]
      exact hafter
    · exact ⟨hs, ht, hafter⟩

theorem placed_ofScript {script : List (Edit α)} {i j : Nat} (h : Placed i j script) :
    Hunk.Placed i j (ofScript script) := by
  induction script generalizing i j with
  | nil => trivial
  | cons e script ih =>
    obtain ⟨he, hrest⟩ := h
    refine placed_push (isPlaced_ofEdit he) ?_
    rw [before_ofEdit, after_ofEdit]
    exact ih hrest

end Stretch

/-! ## Hunks -/

/-- Lists of hunks make up two lists, with the lines in `gaps` after the hunks and with `first` before
them all. -/
structure Covers (hunks : List (Hunk α)) (first : List α) (gaps : List (List α))
    (old new : List α) : Prop where
  /-- There are as many gaps as hunks. -/
  length_eq : gaps.length = hunks.length
  /-- The old lines, hunk by hunk and gap by gap. -/
  before_eq : first ++ (List.zipWith (· ++ ·) (hunks.map Hunk.before) gaps).flatten = old
  /-- The new lines, hunk by hunk and gap by gap. -/
  after_eq : first ++ (List.zipWith (· ++ ·) (hunks.map Hunk.after) gaps).flatten = new

namespace Covers

/-- A hunk may be put before others, with more lines between. -/
theorem cons {hunks : List (Hunk α)} {first : List α} {gaps : List (List α)} {old new : List α}
    (h : Covers hunks first gaps old new) (hunk : Hunk α) (between : List α) :
    Covers (hunk :: hunks) [] ((between ++ first) :: gaps) (hunk.before ++ between ++ old)
      (hunk.after ++ between ++ new) where
  length_eq := by simp [h.length_eq]
  before_eq := by simp [← h.before_eq]
  after_eq := by simp [← h.after_eq]

theorem singleton (hunk : Hunk α) (rest : List α) :
    Covers [hunk] [] [rest] (hunk.before ++ rest) (hunk.after ++ rest) where
  length_eq := rfl
  before_eq := by simp
  after_eq := by simp

theorem prepend {hunks : List (Hunk α)} {first : List α} {gaps : List (List α)} {old new : List α}
    (h : Covers hunks first gaps old new) (lines : List α) :
    Covers hunks (lines ++ first) gaps (lines ++ old) (lines ++ new) where
  length_eq := h.length_eq
  before_eq := by rw [List.append_assoc, h.before_eq]
  after_eq := by rw [List.append_assoc, h.after_eq]

theorem mem_flatten_zipWith {β : Type} {side : β → List α} {parts : List β} {gaps : List (List α)}
    (hlength : gaps.length = parts.length) {part : β} (hpart : part ∈ parts) {line : α}
    (hline : line ∈ side part) :
    line ∈ (List.zipWith (· ++ ·) (parts.map side) gaps).flatten := by
  induction parts generalizing gaps with
  | nil => cases hpart
  | cons first parts ih =>
    cases gaps with
    | nil => cases hlength
    | cons gap gaps =>
      rw [List.map_cons, List.zipWith_cons_cons, List.flatten_cons]
      rcases List.mem_cons.mp hpart with rfl | hpart
      · exact List.mem_append_left _ (List.mem_append_left gap hline)
      · exact List.mem_append_right _ (ih (Nat.succ.inj hlength) hpart)

/-- A hunk shows no lines but those of the two lists. -/
theorem mem {hunks : List (Hunk α)} {first : List α} {gaps : List (List α)} {old new : List α}
    (h : Covers hunks first gaps old new) {hunk : Hunk α} (hhunk : hunk ∈ hunks) {line : α}
    (hline : line ∈ hunk.before ∨ line ∈ hunk.after) : line ∈ old ∨ line ∈ new := by
  rcases hline with hline | hline
  · refine Or.inl ?_
    rw [← h.before_eq]
    exact List.mem_append_right first (mem_flatten_zipWith h.length_eq hhunk hline)
  · refine Or.inr ?_
    rw [← h.after_eq]
    exact List.mem_append_right first (mem_flatten_zipWith h.length_eq hhunk hline)

end Covers

namespace Hunk

/-- Kept lines are what is kept of them at either end, and what is left out between. -/
theorem take_between_drop {radius : Nat} {lines : List α} (h : 2 * radius < lines.length) :
    lines.take radius ++ ((lines.take (lines.length - radius)).drop radius ++
      lines.drop (lines.length - radius)) = lines := by
  have htake : lines.take radius = (lines.take (lines.length - radius)).take radius := by
    rw [List.take_take, Nat.min_eq_left (by omega)]
  rw [htake, ← List.append_assoc, List.take_append_drop, List.take_append_drop]

@[simp] theorem before_append (g h : Hunk α) : before (g ++ h) = before g ++ before h := by
  simp [before]

@[simp] theorem after_append (g h : Hunk α) : after (g ++ h) = after g ++ after h := by
  simp [after]

@[simp] theorem before_singleton (s : Stretch α) : before [s] = s.before := by
  simp [before]

@[simp] theorem after_singleton (s : Stretch α) : after [s] = s.after := by
  simp [after]

@[simp] theorem placed_nil (i j : Nat) : Placed i j ([] : Hunk α) := trivial

theorem placed_append {g h : Hunk α} {i j : Nat} :
    Placed i j (g ++ h) ↔ Placed i j g ∧ Placed (i + g.before.length) (j + g.after.length) h := by
  rw [Placed, along_append, extent_length, extent_length]
  rfl

/-- The last of some kept lines are in their place before what follows the lines. -/
theorem placed_takeLast_cons (radius : Nat) {i j : Nat} {lines : List α} {old new : Nat} {rest : Hunk α}
    (h : (Stretch.kept lines old new).IsPlaced i j)
    (hrest : Placed (i + lines.length) (j + lines.length) rest) :
    Placed (i + (lines.length - radius)) (j + (lines.length - radius))
      ((Stretch.kept lines old new).takeLast radius :: rest) := by
  obtain ⟨rfl, rfl⟩ := h
  refine ⟨⟨rfl, rfl⟩, ?_⟩
  have hend (k : Nat) :
      k + (lines.length - radius) + (lines.drop (lines.length - radius)).length =
        k + lines.length := by
    rw [List.length_drop]
    omega
  show Placed (_ + (lines.drop (lines.length - radius)).length)
    (_ + (lines.drop (lines.length - radius)).length) rest
  rw [hend, hend]
  exact hrest

section Long

variable {radius : Nat} {lines : List α} {old new : Nat} {held rest : Hunk α} {hunks : List (Hunk α)}
  {first : List α} {gaps : List (List α)} (hlong : 2 * radius < lines.length)

include hlong

/-- Where kept lines are long, the first of them end a hunk and the last of them begin what comes next,
and those between are left out. -/
theorem covers_cons_of_long
    (h : Covers hunks first gaps
      (before [(Stretch.kept lines old new).takeLast radius] ++ rest.flatMap Stretch.before)
      (after [(Stretch.kept lines old new).takeLast radius] ++ rest.flatMap Stretch.after)) :
    Covers (((Stretch.kept lines old new).takeFirst radius :: held).reverse :: hunks) []
      (((lines.take (lines.length - radius)).drop radius ++ first) :: gaps)
      (before held.reverse ++ (Stretch.kept lines old new :: rest).flatMap Stretch.before)
      (after held.reverse ++ (Stretch.kept lines old new :: rest).flatMap Stretch.after) := by
  have hcovers := h.cons ((Stretch.kept lines old new).takeFirst radius :: held).reverse
    ((lines.take (lines.length - radius)).drop radius)
  have hlines (tail : List α) :
      lines.take radius ++ ((lines.take (lines.length - radius)).drop radius ++
        (lines.drop (lines.length - radius) ++ tail)) = lines ++ tail := by
    rw [← List.append_assoc _ _ tail, ← List.append_assoc _ _ tail, take_between_drop hlong]
  simpa [hlines] using hcovers

theorem placed_cons_of_long {i j : Nat}
    (h : Placed i j (held.reverse ++ Stretch.kept lines old new :: rest))
    (hnext : ∀ {i j}, Placed i j ((Stretch.kept lines old new).takeLast radius :: rest) →
      HunksPlaced (i + first.length) (j + first.length) hunks gaps) :
    HunksPlaced i j (((Stretch.kept lines old new).takeFirst radius :: held).reverse :: hunks)
      (((lines.take (lines.length - radius)).drop radius ++ first) :: gaps) := by
  obtain ⟨hheld, hs, hrest⟩ := placed_append.mp h
  have hhunk : Placed i j ((Stretch.kept lines old new).takeFirst radius :: held).reverse := by
    rw [List.reverse_cons]
    exact placed_append.mpr ⟨hheld, hs, trivial⟩
  refine ⟨hhunk, ?_⟩
  have hshown : (before ((Stretch.kept lines old new).takeFirst radius :: held).reverse).length =
      (before held.reverse).length + radius ∧
      (after ((Stretch.kept lines old new).takeFirst radius :: held).reverse).length =
        (after held.reverse).length + radius := by
    simp only [List.reverse_cons, before_append, after_append, before_singleton, after_singleton,
      Stretch.takeFirst, Stretch.before, Stretch.after, List.length_append, List.length_take]
    omega
  have hgap : ((lines.take (lines.length - radius)).drop radius ++ first).length =
      lines.length - radius - radius + first.length := by
    simp only [List.length_append, List.length_drop, List.length_take]
    omega
  have hposition (k m : Nat) :
      k + (m + radius + (lines.length - radius - radius + first.length)) =
        k + m + (lines.length - radius) + first.length := by omega
  show HunksPlaced (i + (_ + _)) (j + (_ + _)) hunks gaps
  rw [hshown.1, hshown.2, hgap, hposition, hposition]
  exact hnext (placed_takeLast_cons radius hs hrest)

end Long

theorem groupFrom_nil_eq (radius : Nat) (held : Hunk α) :
    groupFrom radius held [] = if held.any Stretch.isChanged then [held.reverse] else [] := rfl

theorem groupFrom_changed_eq (radius : Nat) (held : Hunk α) (r a : List α) (o n : Nat)
    (rest : List (Stretch α)) :
    groupFrom radius held (.changed r a o n :: rest) =
      groupFrom radius (.changed r a o n :: held) rest := rfl

theorem groupFrom_kept_eq (radius : Nat) (held : Hunk α) (l : List α) (o n : Nat)
    (rest : List (Stretch α)) :
    groupFrom radius held (.kept l o n :: rest) =
      if rest.isEmpty then groupFrom radius ((Stretch.kept l o n).takeFirst radius :: held) rest
      else if 2 * radius < l.length then
        ((Stretch.kept l o n).takeFirst radius :: held).reverse ::
          groupFrom radius [(Stretch.kept l o n).takeLast radius] rest
      else groupFrom radius (.kept l o n :: held) rest := rfl

theorem group_kept_eq (radius : Nat) (l : List α) (o n : Nat) (rest : List (Stretch α)) :
    group radius (.kept l o n :: rest) =
      if rest.isEmpty then [] else groupFrom radius [(Stretch.kept l o n).takeLast radius] rest := rfl

/-- Stretches begin with kept lines, or all of them are grouped. -/
theorem group_cases (radius : Nat) (stretches : List (Stretch α)) :
    (∃ l o n rest, stretches = .kept l o n :: rest) ∨
      group radius stretches = groupFrom radius [] stretches := by
  cases stretches with
  | nil => exact Or.inr rfl
  | cons s rest =>
    cases s with
    | kept l o n => exact Or.inl ⟨l, o, n, rest, rfl⟩
    | changed r a o n => exact Or.inr rfl

/-- The hunk that is being formed when the stretches end is shown if it changes anything. Otherwise its
lines are as good as left out. -/
theorem covers_finish (radius : Nat) (held : Hunk α) (tail : List α) :
    ∃ first gaps, Covers (groupFrom radius held []) first gaps (before held.reverse ++ tail)
      (after held.reverse ++ tail) ∧
      ∀ {i j}, Placed i j held.reverse →
        HunksPlaced (i + first.length) (j + first.length) (groupFrom radius held []) gaps := by
  rw [groupFrom_nil_eq]
  split
  · exact ⟨[], [tail], .singleton held.reverse tail, fun hheld => ⟨hheld, trivial⟩⟩
  · next hkept =>
    have hsame : after held.reverse = before held.reverse :=
      Stretch.lines_of_kept (by rwa [List.any_reverse])
    refine ⟨before held.reverse ++ tail, [], ⟨rfl, ?_, ?_⟩, fun _ => trivial⟩ <;> simp [hsame]

/-- The hunks that are formed of some stretches, with the hunk `held` begun before them, make up the
lines of all, and are in their places if the stretches are. -/
theorem covers_groupFrom (radius : Nat) (held : Hunk α) (stretches : List (Stretch α)) :
    ∃ first gaps, Covers (groupFrom radius held stretches) first gaps
      (before held.reverse ++ stretches.flatMap Stretch.before)
      (after held.reverse ++ stretches.flatMap Stretch.after) ∧
      ∀ {i j}, Placed i j (held.reverse ++ stretches) →
        HunksPlaced (i + first.length) (j + first.length) (groupFrom radius held stretches) gaps := by
  -- on the stretches, with whatever hunk is held; it is finished at the end and by long kept lines
  induction stretches generalizing held with
  | nil => simpa using covers_finish radius held []
  | cons s rest ih =>
    cases s with
    | changed r a o n =>
      rw [groupFrom_changed_eq]
      simpa using ih (.changed r a o n :: held)
    | kept l o n =>
      rw [groupFrom_kept_eq]
      split
      · next hlast =>
        obtain rfl := List.isEmpty_iff.mp hlast
        obtain ⟨first, gaps, hcovers, hplaced⟩ :=
          covers_finish radius ((Stretch.kept l o n).takeFirst radius :: held) (l.drop radius)
        refine ⟨first, gaps, ?_, fun hall => hplaced ?_⟩
        · simpa using hcovers
        · rw [List.reverse_cons]
          obtain ⟨hheld, hs, -⟩ := placed_append.mp hall
          exact placed_append.mpr ⟨hheld, hs, trivial⟩
      · split
        · next hlong =>
          obtain ⟨first, gaps, h, hplaced⟩ := ih [(Stretch.kept l o n).takeLast radius]
          exact ⟨[], _, covers_cons_of_long hlong h,
            fun hall => placed_cons_of_long hlong hall fun hrest => hplaced hrest⟩
        · simpa using ih (.kept l o n :: held)

/-- The hunks of some stretches make up the lines of all, with the lines that they leave out, and are in
their places if the stretches are. -/
theorem covers_group (radius : Nat) (stretches : List (Stretch α)) :
    ∃ first gaps, Covers (group radius stretches) first gaps
      (stretches.flatMap Stretch.before) (stretches.flatMap Stretch.after) ∧
      ∀ {i j}, Placed i j stretches →
        HunksPlaced (i + first.length) (j + first.length) (group radius stretches) gaps := by
  obtain ⟨l, o, n, rest, rfl⟩ | hgroup := group_cases radius stretches
  · rw [group_kept_eq]
    split
    · next hlast =>
      obtain rfl := List.isEmpty_iff.mp hlast
      refine ⟨l, [], ⟨rfl, ?_, ?_⟩, fun _ => trivial⟩ <;> simp
    · obtain ⟨first, gaps, h, hplaced⟩ :=
        covers_groupFrom radius [(Stretch.kept l o n).takeLast radius] rest
      have h := h.prepend (l.take (l.length - radius))
      refine ⟨l.take (l.length - radius) ++ first, gaps, ?_, fun {i j} hall => ?_⟩
      · simpa [← List.append_assoc] using h
      · obtain ⟨hs, hrest⟩ := hall
        rw [List.length_append, List.length_take_of_le (Nat.sub_le _ _), ← Nat.add_assoc,
          ← Nat.add_assoc]
        exact hplaced (placed_takeLast_cons radius hs hrest)
  · rw [hgroup]
    exact covers_groupFrom radius [] stretches

theorem groupFrom_ne_nil {radius : Nat} {held : Hunk α} {stretches : List (Stretch α)}
    (h : held.any Stretch.isChanged ∨ stretches.any Stretch.isChanged) :
    groupFrom radius held stretches ≠ [] := by
  induction stretches generalizing held with
  | nil =>
    rw [groupFrom_nil_eq, if_pos (by simpa using h)]
    simp
  | cons s rest ih =>
    cases s with
    | changed r a o n =>
      rw [groupFrom_changed_eq]
      exact ih (Or.inl (by simp))
    | kept l o n =>
      rw [groupFrom_kept_eq]
      have hrest (m : List α) (i j : Nat) :
          (Stretch.kept m i j :: held).any Stretch.isChanged ∨ rest.any Stretch.isChanged := by
        simpa using h
      split
      · exact ih (hrest _ _ _)
      · split
        · simp
        · exact ih (hrest _ _ _)

/-- Where something is changed, there is a hunk. -/
theorem group_ne_nil {radius : Nat} {stretches : List (Stretch α)}
    (h : stretches.any Stretch.isChanged) : group radius stretches ≠ [] := by
  obtain ⟨l, o, n, rest, rfl⟩ | hgroup := group_cases radius stretches
  · rw [group_kept_eq]
    have hrest : rest.any Stretch.isChanged := by simpa using h
    split
    · next hlast =>
      obtain rfl := List.isEmpty_iff.mp hlast
      simp at hrest
    · exact groupFrom_ne_nil (Or.inr hrest)
  · rw [hgroup]
    exact groupFrom_ne_nil (Or.inr h)

end Hunk

end GoldenHarness.Diff

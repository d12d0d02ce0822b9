import GoldenHarness.Diff.Slide
import GoldenHarness.Proofs.Diff.Script

/-!
# Moving edits changes neither list

A script whose edits are moved about leads from the old list to the new one as before, its edits are in
their places again, and none of them has lost its lines. Each step of a move replaces a few edits by
others that may take their place.
-/

namespace GoldenHarness.Diff

variable {α : Type} [DecidableEq α]

/-! ## Sliding -/

theorem commonSuffix_le_left (as bs : List α) : commonSuffix as bs ≤ as.length := by
  have := commonPrefix_le_left as.reverse bs.reverse
  rwa [List.length_reverse] at this

namespace Edit

/-- Only an insertion slides up. -/
theorem slackUp_cases (e : Edit α) (kept : List α) :
    e.kind = .insert ∧ e.slackUp kept = commonSuffix kept (kept ++ e.lines) ∨
      e.slackUp kept = 0 := by
  unfold slackUp
  cases e.kind with
  | insert => exact Or.inl ⟨rfl, rfl⟩
  | keep | delete => exact Or.inr rfl

theorem slackDown_cases (e : Edit α) (kept : List α) :
    e.kind = .insert ∧ e.slackDown kept = commonPrefix kept (e.lines ++ kept) ∨
      e.slackDown kept = 0 := by
  unfold slackDown
  cases e.kind with
  | insert => exact Or.inl ⟨rfl, rfl⟩
  | keep | delete => exact Or.inr rfl

omit [DecidableEq α] in
@[simp] theorem kind_slideUp (e : Edit α) (kept : List α) (s : Nat) :
    (e.slideUp kept s).kind = e.kind := rfl

omit [DecidableEq α] in
@[simp] theorem kind_slideDown (e : Edit α) (kept : List α) (s : Nat) :
    (e.slideDown kept s).kind = e.kind := rfl

/-- Kept lines and the lines of an edit after them are the same lines when the edit has slid up. -/
theorem slideUp_lines (e : Edit α) (kept : List α) :
    let s := e.slackUp kept
    kept.take (kept.length - s) ++ (e.slideUp kept s).lines ++ kept.drop (kept.length - s) =
      kept ++ e.lines := by
  intro s
  have hs : s ≤ kept.length ∧ (kept ++ e.lines).drop (kept.length + e.lines.length - s) =
      kept.drop (kept.length - s) := by
    obtain ⟨-, h⟩ | h : _ ∨ s = 0 := e.slackUp_cases kept
    · rw [show s = _ from h, ← List.length_append]
      exact ⟨commonSuffix_le_left _ _, (drop_commonSuffix kept (kept ++ e.lines)).symm⟩
    · simp [h]
  have htake : kept.take (kept.length - s) = (kept ++ e.lines).take (kept.length - s) := by
    rw [List.take_append_of_le_length (Nat.sub_le _ _)]
  have hdrop : kept.drop (kept.length - s) =
      ((kept ++ e.lines).drop (kept.length - s)).drop e.lines.length := by
    rw [List.drop_drop, ← hs.2]
    congr 1
    omega
  rw [hdrop, htake]
  unfold slideUp
  rw [List.append_assoc, List.take_append_drop, List.take_append_drop]

theorem slideDown_lines (e : Edit α) (kept : List α) :
    let s := e.slackDown kept
    kept.take s ++ (e.slideDown kept s).lines ++ kept.drop s = e.lines ++ kept := by
  intro s
  have htake : kept.take s = (e.lines ++ kept).take s := by
    obtain ⟨-, h⟩ | h : _ ∨ s = 0 := e.slackDown_cases kept
    · rw [show s = _ from h]
      exact take_commonPrefix kept (e.lines ++ kept)
    · simp [h]
  have hdrop : kept.drop s = ((e.lines ++ kept).drop s).drop e.lines.length := by
    rw [List.drop_drop, Nat.add_comm, ← List.drop_drop, List.drop_left]
  rw [hdrop, htake]
  unfold slideDown
  rw [List.append_assoc, List.take_append_drop, List.take_append_drop]

end Edit

/-! ## Moving -/

/-- Two scripts lead from the same list to the same list. -/
def Alike (s t : List (Edit α)) : Prop := before s = before t ∧ after s = after t

omit [DecidableEq α] in
theorem alike_iff {s t : List (Edit α)} :
    Alike s t ↔ before s = before t ∧ after s = after t := Iff.rfl

/-- A script may take the place of another: it leads from the same list to the same list, its edits are
in their places wherever those of the other are, and none of them is emptied. -/
structure Replaces (s t : List (Edit α)) : Prop where
  /-- The scripts lead from the same list to the same list. -/
  alike : Alike s t
  /-- The edits stay in their places. -/
  placed : ∀ {i j}, Placed i j t → Placed i j s
  /-- No deletion or insertion is emptied. -/
  full : IsFull t → IsFull s

namespace Replaces

omit [DecidableEq α]

theorem refl (s : List (Edit α)) : Replaces s s := ⟨⟨rfl, rfl⟩, id, id⟩

theorem trans {s t u : List (Edit α)} (hs : Replaces s t) (ht : Replaces t u) : Replaces s u :=
  ⟨⟨hs.alike.1.trans ht.alike.1, hs.alike.2.trans ht.alike.2⟩, hs.placed ∘ ht.placed,
    hs.full ∘ ht.full⟩

theorem within {s t : List (Edit α)} (h : Replaces s t) (above below : List (Edit α)) :
    Replaces (above ++ (s ++ below)) (above ++ (t ++ below)) := by
  refine ⟨⟨by simp [h.alike.1], by simp [h.alike.2]⟩, ?_, ?_⟩
  · intro i j
    rw [placed_append, placed_append, placed_append, placed_append, h.alike.1, h.alike.2]
    rintro ⟨habove, ht, hbelow⟩
    exact ⟨habove, h.placed ht, hbelow⟩
  · simp only [isFull_append]
    rintro ⟨habove, ht, hbelow⟩
    exact ⟨habove, h.full ht, hbelow⟩

theorem join {e f : Edit α} (h : e.kind = f.kind) :
    Replaces [{ e with lines := e.lines ++ f.lines }] [e, f] := by
  refine ⟨?_, fun hplaced => ⟨hplaced.1, trivial⟩, fun hfull => ?_⟩
  · cases hf : f.kind <;> simp [alike_iff, Edit.before, Edit.after, h, hf]
  · have he := (isFull_cons.mp hfull).1
    exact isFull_cons.mpr ⟨fun hkind => List.append_ne_nil_of_left_ne_nil (he hkind) _, isFull_nil⟩

/-- A deletion and an insertion may change places: where each of them has lines, the other has none. -/
theorem swap {e f : Edit α} (he : e.kind ≠ .keep) (hf : f.kind ≠ .keep) (hne : e.kind ≠ f.kind) :
    Replaces [f, e] [e, f] := by
  constructor
  · cases hek : e.kind <;> cases hfk : f.kind <;> simp_all [alike_iff, Edit.before, Edit.after]
  · intro i j hplaced
    cases hek : e.kind <;> cases hfk : f.kind <;>
      simp_all [Edit.IsPlaced, Edit.before, Edit.after]
  · simp only [isFull_cons]
    rintro ⟨he, hf, hnil⟩
    exact ⟨hf, he, hnil⟩

/-- An edit without lines may be left out. -/
theorem drop {e : Edit α} (h : e.lines = []) (s : List (Edit α)) : Replaces s (e :: s) := by
  have hbefore : e.before = [] := by cases hk : e.kind <;> simp [Edit.before, h, hk]
  have hafter : e.after = [] := by cases hk : e.kind <;> simp [Edit.after, h, hk]
  refine ⟨by simp [alike_iff, hbefore, hafter], fun hplaced => ?_, fun hfull => (isFull_cons.mp hfull).2⟩
  have htail := (placed_cons.mp hplaced).2
  rwa [hbefore, hafter] at htail

end Replaces

namespace Edit

omit [DecidableEq α] in
theorem slideUp_zero (e : Edit α) (kept : List α) : e.slideUp kept 0 = e := by
  unfold slideUp
  simp

omit [DecidableEq α] in
theorem slideDown_zero (e : Edit α) (kept : List α) : e.slideDown kept 0 = e := by
  unfold slideDown
  simp

theorem slackUp_le (e : Edit α) (kept : List α) : e.slackUp kept ≤ kept.length := by
  obtain ⟨-, h⟩ | h := e.slackUp_cases kept
  · rw [h]
    exact commonSuffix_le_left _ _
  · rw [h]
    exact Nat.zero_le _

theorem slackDown_le (e : Edit α) (kept : List α) : e.slackDown kept ≤ kept.length := by
  obtain ⟨-, h⟩ | h := e.slackDown_cases kept
  · rw [h]
    exact commonPrefix_le_left _ _
  · rw [h]
    exact Nat.zero_le _

theorem kind_of_slackUp {e : Edit α} {kept : List α} (h : e.slackUp kept ≠ 0) : e.kind = .insert := by
  obtain ⟨hinsert, -⟩ | hzero := e.slackUp_cases kept
  · exact hinsert
  · exact absurd hzero h

theorem kind_of_slackDown {e : Edit α} {kept : List α} (h : e.slackDown kept ≠ 0) :
    e.kind = .insert := by
  obtain ⟨hinsert, -⟩ | hzero := e.slackDown_cases kept
  · exact hinsert
  · exact absurd hzero h

end Edit

omit [DecidableEq α] in
/-- An edit among kept lines may stand further up or down, where that makes no difference to the lines
of all three. -/
theorem alike_slid {upper slid lower : Edit α} {s : List (Edit α)} {kept lines : List α}
    (hslid : slid.kind ≠ .keep) (hupper : upper.kind = .keep) (hlower : lower.kind = .keep)
    (hkept : upper.lines ++ lower.lines = kept)
    (hlines : upper.lines ++ slid.lines ++ lower.lines = lines)
    (hbefore : before s = if slid.kind = .insert then kept else lines)
    (hafter : after s = if slid.kind = .insert then lines else kept) :
    Alike [upper, slid, lower] s := by
  rw [alike_iff, hbefore, hafter]
  cases hk : slid.kind <;> simp_all [Edit.before, Edit.after]

namespace Cursor

omit [DecidableEq α] in
theorem script_mk (above : List (Edit α)) (this : Edit α) (below : List (Edit α)) :
    script ⟨above, this, below⟩ = above.reverse ++ this :: below := rfl

omit [DecidableEq α] in
/-- Lines that are passed down are kept before the edits below. -/
theorem replaces_passDown (e kept : Edit α) {s : Nat} (hs : s ≤ kept.lines.length)
    (below : List (Edit α)) :
    Replaces (passDown e kept s below)
      (⟨.keep, kept.lines.drop (kept.lines.length - s), kept.old + kept.lines.length - s,
        e.new + e.after.length - s⟩ :: below) := by
  have hlength : (kept.lines.drop (kept.lines.length - s)).length = s := by
    rw [List.length_drop]
    omega
  unfold passDown
  split
  · next hs => exact .drop (by simp [hs]) below
  · split
    · next next rest =>
      split
      · next hkeep =>
        refine ⟨by simp [alike_iff, Edit.before, Edit.after, hkeep], fun {i j} hplaced => ?_,
          fun hfull => ?_⟩
        · obtain ⟨⟨hold, hnew⟩, hbelow⟩ := (placed_keep_cons rfl).mp hplaced
          obtain ⟨⟨hnextOld, hnextNew⟩, hrest⟩ := (placed_keep_cons hkeep).mp hbelow
          rw [hlength] at hnextOld hnextNew hrest
          dsimp only
          rw [placed_keep_cons (by exact hkeep), List.length_append, hlength, ← Nat.add_assoc,
            ← Nat.add_assoc]
          exact ⟨⟨by dsimp only; omega, by dsimp only; omega⟩, hrest⟩
        · have hbelow := (isFull_cons.mp hfull).2
          exact isFull_cons.mpr ⟨Edit.isFull_of_keep hkeep, (isFull_cons.mp hbelow).2⟩
      · exact .refl _
    · exact .refl _

omit [DecidableEq α] in
/-- Lines that are passed up are kept after the edits above. -/
theorem replaces_passUp (e kept : Edit α) (s : Nat) (above : List (Edit α)) :
    Replaces (passUp e kept s above).reverse
      (above.reverse ++ [⟨.keep, kept.lines.take s, kept.old, e.new⟩]) := by
  unfold passUp
  split
  · next hs =>
    have hempty : kept.lines.take s = [] := by rw [hs, List.take_zero]
    simpa using (Replaces.drop (e := ⟨.keep, kept.lines.take s, kept.old, e.new⟩) hempty []).within
      above.reverse []
  · split
    · next previous rest =>
      split
      · next hkeep =>
        have hjoin := Replaces.join (e := previous) (f := ⟨.keep, kept.lines.take s, kept.old, e.new⟩)
          hkeep
        simpa using hjoin.within rest.reverse []
      · simpa using Replaces.refl _
    · exact .refl _

/-- An edit slides up past kept lines, some of which stay above it while the others come below it. -/
theorem replaces_slideUp (this : Edit α) {kept : Edit α} (hkept : kept.kind = .keep)
    (below : List (Edit α)) :
    let s := this.slackUp kept.lines
    Replaces ({ kept with lines := kept.lines.take (kept.lines.length - s) } ::
        this.slideUp kept.lines s :: passDown this kept s below)
      (kept :: this :: below) := by
  intro s
  -- a deletion stays where it is, so what is to be shown is about insertions
  by_cases hzero : s = 0
  · rw [hzero, Edit.slideUp_zero, Nat.sub_zero, List.take_length]
    exact .refl _
  have hs : s ≤ kept.lines.length := this.slackUp_le kept.lines
  have hinsert : this.kind = .insert := Edit.kind_of_slackUp hzero
  let upper : Edit α := { kept with lines := kept.lines.take (kept.lines.length - s) }
  let slid := this.slideUp kept.lines s
  let lower : Edit α := ⟨.keep, kept.lines.drop (kept.lines.length - s),
    kept.old + kept.lines.length - s, this.new + this.after.length - s⟩
  have hlines : upper.lines ++ slid.lines ++ lower.lines = kept.lines ++ this.lines :=
    this.slideUp_lines kept.lines
  have hpassed : Replaces (upper :: slid :: passDown this kept s below)
      (upper :: slid :: lower :: below) := by
    simpa using (replaces_passDown this kept hs below).within [upper, slid] []
  have hlength : slid.lines.length = this.lines.length := by
    have := congrArg List.length hlines
    simp only [List.length_append, upper, lower, List.length_take, List.length_drop] at this
    omega
  have hslid : Replaces [upper, slid, lower] [kept, this] := by
    refine ⟨alike_slid (hinsert ▸ nofun) hkept rfl (List.take_append_drop _ _) hlines ?_ ?_, ?_, ?_⟩
    · simp [hinsert, Edit.before, hkept, slid]
    · simp [hinsert, Edit.after, hkept, slid]
    · intro i j hplaced
      obtain ⟨⟨hold, hnew⟩, hthis⟩ := (placed_keep_cons hkept).mp hplaced
      obtain ⟨hthisNew, -⟩ := (placed_insert_cons hinsert).mp hthis
      have hupper : upper.lines.length = kept.lines.length - s := List.length_take_of_le (Nat.sub_le _ _)
      have hafter : this.after.length = this.lines.length := by rw [Edit.after, hinsert]
      rw [placed_keep_cons (by exact hkept), placed_insert_cons (by exact hinsert),
        placed_keep_cons rfl, hupper, hlength]
      refine ⟨⟨hold, hnew⟩, ?_, ⟨?_, ?_⟩, placed_nil⟩
      · show this.new - s = j + (kept.lines.length - s)
        omega
      · show kept.old + kept.lines.length - s = i + (kept.lines.length - s)
        omega
      · show this.new + this.after.length - s = j + (kept.lines.length - s) + this.lines.length
        omega
    · intro hfull
      have hthis := (isFull_cons.mp (isFull_cons.mp hfull).2).1
      simp only [isFull_cons]
      exact ⟨Edit.isFull_of_keep hkept, hthis.of_length_eq rfl hlength, Edit.isFull_of_keep rfl,
        isFull_nil⟩
  exact hpassed.trans (hslid.within [] below)

/-- An edit slides down past kept lines, some of which come above it while the others stay below it. -/
theorem replaces_slideDown (this : Edit α) {kept : Edit α} (hkept : kept.kind = .keep)
    (above : List (Edit α)) :
    let s := this.slackDown kept.lines
    Replaces ((passUp this kept s above).reverse ++
        [this.slideDown kept.lines s,
          { kept with
            lines := kept.lines.drop s
            old := kept.old + s
            new := kept.new + s }])
      (above.reverse ++ [this, kept]) := by
  intro s
  by_cases hzero : s = 0
  · rw [hzero, Edit.slideDown_zero, List.drop_zero]
    exact .refl _
  have hs : s ≤ kept.lines.length := this.slackDown_le kept.lines
  have hinsert : this.kind = .insert := Edit.kind_of_slackDown hzero
  let upper : Edit α := ⟨.keep, kept.lines.take s, kept.old, this.new⟩
  let slid := this.slideDown kept.lines s
  let lower : Edit α :=
    { kept with lines := kept.lines.drop s, old := kept.old + s, new := kept.new + s }
  have hlines : upper.lines ++ slid.lines ++ lower.lines = this.lines ++ kept.lines :=
    this.slideDown_lines kept.lines
  have hpassed : Replaces ((passUp this kept s above).reverse ++ [slid, lower])
      (above.reverse ++ [upper, slid, lower]) := by
    simpa using (replaces_passUp this kept s above).within [] [slid, lower]
  have hlength : slid.lines.length = this.lines.length := by
    have := congrArg List.length hlines
    simp only [List.length_append, upper, lower, List.length_take, List.length_drop] at this
    omega
  have hslid : Replaces [upper, slid, lower] [this, kept] := by
    refine ⟨alike_slid (hinsert ▸ nofun) rfl hkept (List.take_append_drop _ _) hlines ?_ ?_, ?_, ?_⟩
    · simp [hinsert, Edit.before, hkept, slid]
    · simp [hinsert, Edit.after, hkept, slid]
    · intro i j hplaced
      obtain ⟨hthisNew, hbelow⟩ := (placed_insert_cons hinsert).mp hplaced
      obtain ⟨⟨hold, hnew⟩, -⟩ := (placed_keep_cons hkept).mp hbelow
      have hupper : upper.lines.length = s := List.length_take_of_le hs
      rw [placed_keep_cons rfl, placed_insert_cons (by exact hinsert),
        placed_keep_cons (by exact hkept), hupper, hlength]
      refine ⟨⟨hold, hthisNew⟩, ?_, ⟨?_, ?_⟩, placed_nil⟩
      · show this.new + s = j + s
        omega
      · show kept.old + s = i + s
        omega
      · show kept.new + s = j + s + this.lines.length
        omega
    · intro hfull
      have hthis := (isFull_cons.mp hfull).1
      simp only [isFull_cons]
      exact ⟨Edit.isFull_of_keep rfl, hthis.of_length_eq rfl hlength, Edit.isFull_of_keep hkept,
        isFull_nil⟩
  have hwithin := hslid.within above.reverse []
  rw [List.append_nil, List.append_nil] at hwithin
  exact hpassed.trans hwithin

/-- Moving an edit up leaves it what it is, and the script leads where it led. -/
theorem replaces_moveUp {above : List (Edit α)} {this : Edit α} {below : List (Edit α)}
    (hthis : this.kind ≠ .keep) :
    Replaces (moveUp above this below).script (above.reverse ++ this :: below) ∧
      (moveUp above this below).this.kind = this.kind := by
  fun_induction moveUp above this below with
  | case1 => exact ⟨.refl _, rfl⟩
  | case2 previous above this below hkeep s left passed slid hleft ih =>
    obtain ⟨hscript, hkind⟩ := ih hthis
    have hslid := (Replaces.drop (List.isEmpty_iff.mp hleft) _).trans (replaces_slideUp this hkeep below)
    refine ⟨hscript.trans ?_, hkind⟩
    simpa using hslid.within above.reverse []
  | case3 previous above this below hkeep s left passed slid hleft =>
    refine ⟨?_, rfl⟩
    simpa [script_mk] using (replaces_slideUp this hkeep below).within above.reverse []
  | case4 previous above this below hkeep hsame ih =>
    obtain ⟨hscript, hkind⟩ := ih hkeep
    refine ⟨hscript.trans ?_, hkind.trans hsame⟩
    simpa using (Replaces.join hsame).within above.reverse below
  | case5 previous above this below hkeep hother ih =>
    obtain ⟨hscript, hkind⟩ := ih hthis
    refine ⟨hscript.trans ?_, hkind⟩
    simpa using (Replaces.swap hkeep hthis hother).within above.reverse below

theorem replaces_moveDown {above : List (Edit α)} {this : Edit α} {below : List (Edit α)}
    (hthis : this.kind ≠ .keep) :
    Replaces (moveDown above this below).script (above.reverse ++ this :: below) ∧
      (moveDown above this below).this.kind = this.kind := by
  fun_induction moveDown above this below with
  | case1 => exact ⟨.refl _, rfl⟩
  | case2 above this next below hkeep s left passed slid hleft ih =>
    obtain ⟨hscript, hkind⟩ := ih hthis
    have hslid := (replaces_slideDown this hkeep above).within [] below
    have hleft : next.lines.drop s = [] := List.isEmpty_iff.mp hleft
    refine ⟨hscript.trans ?_, hkind⟩
    have hdrop := (Replaces.drop (e := { next with
      lines := next.lines.drop s, old := next.old + s, new := next.new + s }) hleft below).within
        (passed.reverse ++ [slid]) []
    simpa using hdrop.trans (by simpa using hslid)
  | case3 above this next below hkeep s left passed slid hleft =>
    refine ⟨?_, rfl⟩
    simpa [script_mk] using (replaces_slideDown this hkeep above).within [] below
  | case4 above this next below hkeep hsame ih =>
    obtain ⟨hscript, hkind⟩ := ih hthis
    refine ⟨hscript.trans ?_, hkind⟩
    simpa using (Replaces.join hsame.symm).within above.reverse below
  | case5 above this next below hkeep hother ih =>
    obtain ⟨hscript, hkind⟩ := ih hthis
    refine ⟨hscript.trans ?_, hkind⟩
    simpa using (Replaces.swap hthis hkeep (Ne.symm hother)).within above.reverse below

theorem replaces_settle {c : Cursor α} (hthis : c.this.kind ≠ .keep) :
    Replaces c.settle.script c.script ∧ c.settle.this.kind = c.this.kind := by
  obtain ⟨hup, hkind⟩ : Replaces (moveUp c.above c.this c.below).script c.script ∧ _ :=
    replaces_moveUp hthis
  have hmoved : (moveUp c.above c.this c.below).this.kind ≠ .keep := by rwa [hkind]
  obtain ⟨hdown, hsame⟩ := replaces_moveDown hmoved
  exact ⟨hdown.trans hup, hsame.trans hkind⟩

end Cursor

theorem replaces_settleFrom {kind : Kind} (hkind : kind ≠ .keep) (count : Nat)
    (above below : List (Edit α)) :
    Replaces (settleFrom kind count above below) (above.reverse ++ below) := by
  -- on how many edits are still to be settled; those that have been settled are among the ones above
  induction count generalizing above below with
  | zero => exact .refl _
  | succ count ih =>
    rw [settleFrom]
    split
    · exact .refl _
    · next this rest hrest =>
      have hsplit : below.takeWhile (·.kind ≠ kind) ++ this :: rest = below := by
        rw [← hrest, List.takeWhile_append_dropWhile]
      have hthis : this.kind = kind := by
        have hhead := List.head?_dropWhile_not (fun e : Edit α => decide (e.kind ≠ kind)) below
        rw [hrest] at hhead
        simpa using hhead
      let c : Cursor α := ⟨(below.takeWhile (·.kind ≠ kind)).reverse ++ above, this, rest⟩
      have hc : c.script = above.reverse ++ below := by
        rw [Cursor.script, List.reverse_append, List.reverse_reverse, List.append_assoc, hsplit]
      obtain ⟨hscript, -⟩ := Cursor.replaces_settle (c := c) (hthis ▸ hkind)
      have hnext : Replaces ((c.settle.this :: c.settle.above).reverse ++ c.settle.below)
          (above.reverse ++ below) := by
        rw [← hc]
        simpa [Cursor.script] using hscript
      exact (ih _ _).trans hnext

theorem replaces_settleAll {kind : Kind} (hkind : kind ≠ .keep) (script : List (Edit α)) :
    Replaces (settleAll kind script) script :=
  replaces_settleFrom hkind _ [] script

theorem replaces_settle (script : List (Edit α)) : Replaces (settle script) script :=
  (replaces_settleAll (by decide) _).trans (replaces_settleAll (by decide) script)

theorem relates_settle_search (old new : List α) : Relates (settle (search old new)) old new := by
  obtain ⟨hbefore, hafter⟩ := (replaces_settle (search old new)).alike
  obtain ⟨hold, hnew⟩ := relates_searchFrom (old.length + new.length + 1) old new 0 0
  exact ⟨hbefore.trans hold, hafter.trans hnew⟩

theorem placed_settle_search (old new : List α) : Placed 0 0 (settle (search old new)) :=
  (replaces_settle _).placed (placed_searchFrom _ (fun _ => rfl) fun _ => rfl)

theorem isFull_settle_search (old new : List α) : IsFull (settle (search old new)) :=
  (replaces_settle _).full (isFull_searchFrom _ old new 0 0)

end GoldenHarness.Diff

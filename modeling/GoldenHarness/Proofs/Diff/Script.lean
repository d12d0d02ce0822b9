import GoldenHarness.Diff.Search
import GoldenHarness.Proofs.Diff.Position

/-!
# Scripts relate their two lists

Whatever the search finds, its script leads from the old list to the new one, every edit of it is in
its place, and no deletion or insertion is empty.
-/

namespace GoldenHarness.Diff

variable {α : Type}

/-- A script leads from one list to another. -/
def Relates (script : List (Edit α)) (old new : List α) : Prop :=
  before script = old ∧ after script = new

namespace Relates

theorem nil : Relates ([] : List (Edit α)) [] [] := ⟨rfl, rfl⟩

theorem append {s t : List (Edit α)} {old new old' new' : List α} (hs : Relates s old new)
    (ht : Relates t old' new') : Relates (s ++ t) (old ++ old') (new ++ new') := by
  constructor
  · rw [before_append, hs.1, ht.1]
  · rw [after_append, hs.2, ht.2]

/-- A single edit leads from the lines that it takes away or keeps to those that it keeps or adds. -/
theorem singleton (e : Edit α) : Relates [e] e.before e.after :=
  ⟨List.append_nil _, List.append_nil _⟩

/-- Scripts for what stands before and after a point in each list make a script for both lists. -/
theorem split {s t : List (Edit α)} {old new : List α} (x y : Nat)
    (hs : Relates s (old.take x) (new.take y)) (ht : Relates t (old.drop x) (new.drop y)) :
    Relates (s ++ t) old new := by
  have h := hs.append ht
  rwa [List.take_append_drop, List.take_append_drop] at h

end Relates

/-! ## Searching -/

theorem relates_deleteAll (old : List α) (i j : Nat) : Relates (deleteAll old i j) old [] := by
  unfold deleteAll
  split
  · next h =>
    rw [List.isEmpty_iff.mp h]
    exact .nil
  · exact .singleton _

theorem relates_insertAll (new : List α) (i j : Nat) : Relates (insertAll new i j) [] new := by
  unfold insertAll
  split
  · next h =>
    rw [List.isEmpty_iff.mp h]
    exact .nil
  · exact .singleton _

theorem relates_keepAll (both : List α) (i j : Nat) : Relates (keepAll both i j) both both := by
  unfold keepAll
  split
  · next h =>
    rw [List.isEmpty_iff.mp h]
    exact .nil
  · exact .singleton _

/-- Deleting all of one list and inserting all of the other leads from the one to the other. -/
theorem relates_replaceAll (old new : List α) (i j k l : Nat) :
    Relates (deleteAll old i j ++ insertAll new k l) old new := by
  have := (relates_deleteAll old i j).append (relates_insertAll new k l)
  rwa [List.append_nil, List.nil_append] at this

variable [DecidableEq α]

/-- The common ending is an ending of both lists. -/
theorem drop_commonSuffix (as bs : List α) :
    as.drop (as.length - commonSuffix as bs) = bs.drop (bs.length - commonSuffix as bs) := by
  have h := congrArg List.reverse (take_commonPrefix as.reverse bs.reverse)
  rwa [List.take_reverse, List.take_reverse, List.reverse_reverse, List.reverse_reverse] at h

/-- What lies between the common beginning and the common ending of two lists is all that a script has
to be found for. -/
theorem relates_framed (old new : List α) {core : List (Edit α)} (i j k l : Nat) :
    let oldRest := old.drop (commonPrefix old new)
    let newRest := new.drop (commonPrefix old new)
    let s := commonSuffix oldRest newRest
    Relates core (oldRest.take (oldRest.length - s)) (newRest.take (newRest.length - s)) →
      Relates (keepAll (old.take (commonPrefix old new)) i j ++ core ++
        keepAll (oldRest.drop (oldRest.length - s)) k l) old new := by
  intro oldRest newRest s hcore
  have hbegin : old.take (commonPrefix old new) = new.take (commonPrefix old new) :=
    take_commonPrefix old new
  have hsuffix : oldRest.drop (oldRest.length - s) = newRest.drop (newRest.length - s) :=
    drop_commonSuffix oldRest newRest
  have h := ((relates_keepAll (old.take (commonPrefix old new)) i j).append hcore).append
    (relates_keepAll (oldRest.drop (oldRest.length - s)) k l)
  have hold : old.take (commonPrefix old new) ++ oldRest.take (oldRest.length - s) ++
      oldRest.drop (oldRest.length - s) = old := by
    rw [List.append_assoc, List.take_append_drop, List.take_append_drop]
  have hnew : old.take (commonPrefix old new) ++ newRest.take (newRest.length - s) ++
      oldRest.drop (oldRest.length - s) = new := by
    rw [hbegin, hsuffix, List.append_assoc, List.take_append_drop, List.take_append_drop]
  rwa [hold, hnew] at h

/-- What holds of every plain replacement, and is kept where scripts for the parts of two lists are joined
and where what two lists share is put around a script, holds of whatever the search finds. -/
theorem searchFrom_induction {motive : List α → List α → Nat → Nat → List (Edit α) → Prop}
    (replace : ∀ old new i j, motive old new i j (deleteAll old i j ++ insertAll new i j))
    (join : ∀ {old new i j s t} (x y : Nat), motive (old.take x) (new.take y) i j s →
      motive (old.drop x) (new.drop y) (i + x) (j + y) t → motive old new i j (s ++ t))
    (frame : ∀ {old new i j core},
      let p := commonPrefix old new
      let oldRest := old.drop p
      let newRest := new.drop p
      let s := commonSuffix oldRest newRest
      let o := oldRest.take (oldRest.length - s)
      let n := newRest.take (newRest.length - s)
      motive o n (i + p) (j + p) core →
        motive old new i j (keepAll (old.take p) i j ++ core ++
          keepAll (oldRest.drop (oldRest.length - s)) (i + p + o.length) (j + p + n.length)))
    (fuel : Nat) (old new : List α) (i j : Nat) : motive old new i j (searchFrom fuel old new i j) := by
  induction fuel generalizing old new i j with
  | zero => exact replace old new i j
  | succ fuel ih =>
    rw [searchFrom]
    refine frame ?_
    split
    · exact replace _ _ _ _
    · split
      · next x y _ => exact join x y (ih _ _ _ _) (ih _ _ _ _)
      · exact replace _ _ _ _

/-- The search finds a script from the one list to the other, wherever its frontiers meet. -/
theorem relates_searchFrom (fuel : Nat) (old new : List α) (i j : Nat) :
    Relates (searchFrom fuel old new i j) old new := by
  refine searchFrom_induction (motive := fun old new _ _ script => Relates script old new) ?_ ?_ ?_
    fuel old new i j
  · intro old new i j
    exact relates_replaceAll old new i j i j
  · intro old new i j s t x y hs ht
    exact hs.split x y ht
  · intro old new i j core p oldRest newRest s o n hcore
    exact relates_framed old new _ _ _ _ hcore

/-! ## Places of found edits -/

section Search

variable {i j i' j' : Nat}

omit [DecidableEq α] in
theorem placed_deleteAll {old : List α} (hi : old ≠ [] → i' = i) : Placed i' j' (deleteAll old i j) := by
  unfold deleteAll
  split
  · exact placed_nil
  · next h => exact ⟨⟨fun _ => (hi (by simpa using h)).symm, fun hkind => absurd rfl hkind⟩, trivial⟩

omit [DecidableEq α] in
theorem placed_insertAll {new : List α} (hj : new ≠ [] → j' = j) : Placed i' j' (insertAll new i j) := by
  unfold insertAll
  split
  · exact placed_nil
  · next h => exact ⟨⟨fun hkind => absurd rfl hkind, fun _ => (hj (by simpa using h)).symm⟩, trivial⟩

omit [DecidableEq α] in
theorem placed_keepAll {both : List α} (h : both ≠ [] → i' = i ∧ j' = j) :
    Placed i' j' (keepAll both i j) := by
  unfold keepAll
  split
  · exact placed_nil
  · next hboth =>
    obtain ⟨rfl, rfl⟩ := h (by simpa using hboth)
    exact ⟨⟨fun _ => rfl, fun _ => rfl⟩, trivial⟩

omit [DecidableEq α] in
theorem placed_replaceAll {old new : List α} (hi : old ≠ [] → i' = i) (hj : new ≠ [] → j' = j) :
    Placed i' j' (deleteAll old i j ++ insertAll new i j) := by
  refine placed_append.mpr ⟨placed_deleteAll hi, placed_insertAll ?_⟩
  rw [(relates_deleteAll old i j).2]
  exact hj

/-- A script in its place, between the lines that two lists share at either end. -/
theorem placed_framed {old new : List α} {core : List (Edit α)} (hi : old ≠ [] → i' = i)
    (hj : new ≠ [] → j' = j) :
    let p := commonPrefix old new
    let oldRest := old.drop p
    let newRest := new.drop p
    let s := commonSuffix oldRest newRest
    let o := oldRest.take (oldRest.length - s)
    let n := newRest.take (newRest.length - s)
    Relates core o n → Placed (i' + p) (j' + p) core →
      Placed i' j' (keepAll (old.take p) i j ++ core ++
        keepAll (oldRest.drop (oldRest.length - s)) (i + p + o.length) (j + p + n.length)) := by
  intro p oldRest newRest s o n hrelates hcore
  have hlength : (old.take p).length = p := List.length_take_of_le (commonPrefix_le_left old new)
  have hbegin : old.take p = new.take p := take_commonPrefix old new
  have hend : oldRest.drop (oldRest.length - s) = newRest.drop (newRest.length - s) :=
    drop_commonSuffix oldRest newRest
  -- what is kept is part of both lists, so the positions are right if anything is kept
  have hne {shared : List α} (hold : old = [] → shared = []) (hnew : new = [] → shared = [])
      (h : shared ≠ []) : i' = i ∧ j' = j :=
    ⟨hi fun heq => h (hold heq), hj fun heq => h (hnew heq)⟩
  have hkept := relates_keepAll (old.take p) i j
  rw [placed_append, placed_append, before_append, after_append, hkept.1, hkept.2, hrelates.1,
    hrelates.2, List.length_append, List.length_append, hlength]
  refine ⟨⟨placed_keepAll (hne (fun heq => by rw [heq, List.take_nil]) fun heq => by
    rw [hbegin, heq, List.take_nil]), hcore⟩, placed_keepAll fun hshared => ?_⟩
  obtain ⟨rfl, rfl⟩ := hne (fun heq => by simp [oldRest, heq])
    (fun heq => by rw [hend]; simp [newRest, heq]) hshared
  exact ⟨(Nat.add_assoc _ _ _).symm, (Nat.add_assoc _ _ _).symm⟩

omit [DecidableEq α] in
/-- Scripts in their places for what stands before and after a point in each list. -/
theorem placed_join {old new : List α} {s t : List (Edit α)} (x y : Nat)
    (hs : Relates s (old.take x) (new.take y)) (hi : old ≠ [] → i' = i) (hj : new ≠ [] → j' = j)
    (hfirst : Placed i' j' s)
    (hsecond : ∀ i'' j'', (old.drop x ≠ [] → i'' = i + x) → (new.drop y ≠ [] → j'' = j + y) →
      Placed i'' j'' t) :
    Placed i' j' (s ++ t) := by
  -- the second part begins where it says if there is any of it
  have hbegins {side : List α} {k k' x : Nat} (h : side ≠ [] → k' = k) (hne : side.drop x ≠ []) :
      k' + (side.take x).length = k + x := by
    have hlt : x < side.length := by simpa using hne
    have hside : side ≠ [] := by
      rintro rfl
      cases hlt
    rw [h hside, List.length_take_of_le (Nat.le_of_lt hlt)]
  refine placed_append.mpr ⟨hfirst, ?_⟩
  rw [hs.1, hs.2]
  exact hsecond _ _ (hbegins hi) (hbegins hj)

/-- The edits that the search finds are in their places. A position does not matter if there are no lines
in its list. -/
theorem placed_searchFrom (fuel : Nat) {old new : List α} (hi : old ≠ [] → i' = i)
    (hj : new ≠ [] → j' = j) : Placed i' j' (searchFrom fuel old new i j) := by
  have hplaced : Relates (searchFrom fuel old new i j) old new ∧
      ∀ i' j', (old ≠ [] → i' = i) → (new ≠ [] → j' = j) →
        Placed i' j' (searchFrom fuel old new i j) := by
    refine searchFrom_induction
      (motive := fun old new i j script => Relates script old new ∧
        ∀ i' j', (old ≠ [] → i' = i) → (new ≠ [] → j' = j) → Placed i' j' script)
      ?_ ?_ ?_ fuel old new i j
    · intro old new i j
      exact ⟨relates_replaceAll old new i j i j, fun i' j' => placed_replaceAll⟩
    · rintro old new i j s t x y ⟨hs, hfirst⟩ ⟨ht, hsecond⟩
      have hpart {side : List α} {x : Nat} (hne : side.take x ≠ []) : side ≠ [] := by
        rintro rfl
        simp at hne
      refine ⟨hs.split x y ht, fun i' j' hi hj => ?_⟩
      exact placed_join x y hs hi hj
        (hfirst i' j' (fun hne => hi (hpart hne)) fun hne => hj (hpart hne)) hsecond
    · rintro old new i j core p oldRest newRest s o n ⟨hrelates, hcore⟩
      have hrest {side : List α} {k k' m : Nat} (h : side ≠ [] → k' = k)
          (hne : (side.drop p).take m ≠ []) : k' + p = k + p := by
        rw [h]
        rintro rfl
        simp at hne
      refine ⟨relates_framed old new _ _ _ _ hrelates, fun i' j' hi hj => ?_⟩
      exact placed_framed hi hj hrelates (hcore _ _ (hrest hi) (hrest hj))
  exact hplaced.2 i' j' hi hj

end Search

/-! ## Edits without lines -/

/-- Deletions and insertions have lines. -/
def Edit.IsFull (e : Edit α) : Prop := e.kind ≠ .keep → e.lines ≠ []

/-- No deletion or insertion of a script is empty. -/
def IsFull (script : List (Edit α)) : Prop := ∀ e ∈ script, e.IsFull

section Full

omit [DecidableEq α]

@[simp] theorem isFull_nil : IsFull ([] : List (Edit α)) := fun _ h => nomatch h

@[simp] theorem isFull_cons {e : Edit α} {script : List (Edit α)} :
    IsFull (e :: script) ↔ e.IsFull ∧ IsFull script :=
  List.forall_mem_cons

@[simp] theorem isFull_append {s t : List (Edit α)} :
    IsFull (s ++ t) ↔ IsFull s ∧ IsFull t :=
  List.forall_mem_append

theorem Edit.isFull_of_keep {e : Edit α} (h : e.kind = .keep) : e.IsFull := fun hne => absurd h hne

/-- An edit with as many lines as a full one of its kind is full. -/
theorem Edit.IsFull.of_length_eq {e f : Edit α} (he : e.IsFull) (hkind : f.kind = e.kind)
    (hlength : f.lines.length = e.lines.length) : f.IsFull := by
  intro hchange hnil
  refine he (hkind ▸ hchange) (List.length_eq_zero_iff.mp ?_)
  rw [← hlength, hnil, List.length_nil]

theorem isFull_deleteAll (old : List α) (i j : Nat) : IsFull (deleteAll old i j) := by
  unfold deleteAll
  split
  · exact isFull_nil
  · next h => exact isFull_cons.mpr ⟨fun _ => by simpa using h, isFull_nil⟩

theorem isFull_insertAll (new : List α) (i j : Nat) : IsFull (insertAll new i j) := by
  unfold insertAll
  split
  · exact isFull_nil
  · next h => exact isFull_cons.mpr ⟨fun _ => by simpa using h, isFull_nil⟩

theorem isFull_keepAll (both : List α) (i j : Nat) : IsFull (keepAll both i j) := by
  unfold keepAll
  split
  · exact isFull_nil
  · exact isFull_cons.mpr ⟨Edit.isFull_of_keep rfl, isFull_nil⟩

end Full

/-- The search finds no empty deletions or insertions. -/
theorem isFull_searchFrom (fuel : Nat) (old new : List α) (i j : Nat) :
    IsFull (searchFrom fuel old new i j) := by
  refine searchFrom_induction (motive := fun _ _ _ _ script => IsFull script) ?_ ?_ ?_ fuel old new i j
  · intro old new i j
    exact isFull_append.mpr ⟨isFull_deleteAll old i j, isFull_insertAll new i j⟩
  · intro old new i j s t x y hs ht
    exact isFull_append.mpr ⟨hs, ht⟩
  · intro old new i j core p oldRest newRest s o n hcore
    rw [isFull_append, isFull_append]
    exact ⟨⟨isFull_keepAll _ _ _, hcore⟩, isFull_keepAll _ _ _⟩

end GoldenHarness.Diff

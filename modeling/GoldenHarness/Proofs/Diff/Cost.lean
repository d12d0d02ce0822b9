import GoldenHarness.Proofs.Diff.Middle
import GoldenHarness.Proofs.Diff.Moving

/-!
# The search finds a shortest script

Between the lines that two lists share at either end, the search splits at a point on a shortest way,
so no script deletes and inserts fewer lines than the one that it finds. Moving the edits of a script
about changes what is deleted and inserted, and not how much.
-/

namespace GoldenHarness.Diff

variable {α : Type}

/-! ## Cost -/

@[simp] theorem cost_nil : cost ([] : List (Edit α)) = 0 := rfl

@[simp] theorem cost_cons (e : Edit α) (script : List (Edit α)) :
    cost (e :: script) = (if e.isChange then e.lines.length else 0) + cost script := rfl

@[simp] theorem cost_append (s t : List (Edit α)) : cost (s ++ t) = cost s + cost t := by
  induction s with
  | nil => simp
  | cons e s ih => rw [List.cons_append, cost_cons, cost_cons, ih, Nat.add_assoc]

theorem isChange_iff {e : Edit α} : e.isChange ↔ e.kind ≠ .keep := decide_eq_true_iff

theorem cost_of_keep {e : Edit α} (h : e.kind = .keep) (script : List (Edit α)) :
    cost (e :: script) = cost script := by
  rw [cost_cons, if_neg (by rw [isChange_iff, h]; exact not_not_intro rfl), Nat.zero_add]

theorem cost_deleteAll (old : List α) (i j : Nat) : cost (deleteAll old i j) = old.length := by
  unfold deleteAll
  split
  · next h => rw [List.isEmpty_iff.mp h]; rfl
  · simp [isChange_iff]

theorem cost_insertAll (new : List α) (i j : Nat) : cost (insertAll new i j) = new.length := by
  unfold insertAll
  split
  · next h => rw [List.isEmpty_iff.mp h]; rfl
  · simp [isChange_iff]

theorem cost_keepAll (both : List α) (i j : Nat) : cost (keepAll both i j) = 0 := by
  unfold keepAll
  split
  · rfl
  · simp [isChange_iff]

/-- What a script keeps is common to both lists. -/
theorem within_cost {script : List (Edit α)} {old new : List α} (h : Relates script old new) :
    Within (cost script) old new := by
  obtain ⟨rfl, rfl⟩ := h
  induction script with
  | nil => exact Within.refl []
  | cons e script ih =>
    rw [before_cons, after_cons, cost_cons]
    refine Within.append ?_ ih
    cases hkind : e.kind with
    | keep =>
      rw [Edit.before, Edit.after, hkind]
      exact (Within.refl e.lines).mono (Nat.zero_le _)
    | delete =>
      rw [Edit.before, Edit.after, hkind, if_pos (isChange_iff.mpr (by rw [hkind]; decide))]
      exact Within.all e.lines []
    | insert =>
      rw [Edit.before, Edit.after, hkind, if_pos (isChange_iff.mpr (by rw [hkind]; decide))]
      exact (Within.all [] e.lines).mono (by simp)

/-! ## Searching -/

/-- Lists that differ in their first lines and in their last lines are further apart than one step. -/
theorem not_within_one {old new : List α} (hold : old ≠ []) (hnew : new ≠ [])
    (hhead : old.head? ≠ new.head?) (hlast : old.getLast? ≠ new.getLast?) : ¬ Within 1 old new := by
  intro h
  obtain ⟨a, as, rfl⟩ := List.exists_cons_of_ne_nil hold
  obtain ⟨b, bs, rfl⟩ := List.exists_cons_of_ne_nil hnew
  rcases h.cons_cases with ⟨rfl, -⟩ | ⟨-, hdeleted⟩ | ⟨-, hinserted⟩
  · exact hhead rfl
  · have heq : as = b :: bs := hdeleted.eq_of_zero
    exact hlast (by rw [heq, List.getLast?_cons_of_ne_nil (List.cons_ne_nil b bs)])
  · have heq : a :: as = bs := hinserted.eq_of_zero
    exact hlast (by rw [← heq, List.getLast?_cons_of_ne_nil (List.cons_ne_nil a as)])

variable [DecidableEq α]

/-- The common beginning of two lists ends where they differ. -/
theorem head?_drop_commonPrefix {old new : List α} (hold : old.drop (commonPrefix old new) ≠ [])
    (hnew : new.drop (commonPrefix old new) ≠ []) :
    (old.drop (commonPrefix old new)).head? ≠ (new.drop (commonPrefix old new)).head? := by
  fun_induction commonPrefix old new with
  | case1 a old new ih => exact ih hold hnew
  | case2 a old b new hne => simpa using hne
  | case3 old new hnil =>
    obtain ⟨a, as, rfl⟩ := List.exists_cons_of_ne_nil hold
    obtain ⟨b, bs, rfl⟩ := List.exists_cons_of_ne_nil hnew
    exact absurd rfl (hnil a as b bs rfl)

theorem commonPrefix_le_right (old new : List α) : commonPrefix old new ≤ new.length := by
  have h := congrArg List.length (take_commonPrefix old new)
  rw [List.length_take_of_le (commonPrefix_le_left old new)] at h
  rw [h]
  exact List.length_take_le' _ _

omit [DecidableEq α] in
/-- A beginning of a list that is not empty begins as the list does. -/
theorem head?_take_of_ne_nil {rest : List α} {k : Nat} (h : rest.take k ≠ []) :
    (rest.take k).head? = rest.head? := by
  rw [List.head?_take, if_neg]
  rintro rfl
  exact h List.take_zero

/-- What a search has left of two lists between the lines that they share at either end. -/
structure Framed (old new o n : List α) : Prop where
  /-- The shared lines make the lists no further apart. -/
  within : ∀ d, Within d old new → Within d o n
  /-- What is left is not longer. -/
  length_le : o.length + n.length ≤ old.length + new.length
  /-- What is left on both sides differs at either end. -/
  apart : o ≠ [] → n ≠ [] → ¬ Within 1 o n

theorem framed (old new : List α) :
    let oldRest := old.drop (commonPrefix old new)
    let newRest := new.drop (commonPrefix old new)
    let s := commonSuffix oldRest newRest
    Framed old new (oldRest.take (oldRest.length - s)) (newRest.take (newRest.length - s)) := by
  intro oldRest newRest s
  have hbegin : old.take (commonPrefix old new) = new.take (commonPrefix old new) :=
    take_commonPrefix old new
  have hend : oldRest.drop (oldRest.length - s) = newRest.drop (newRest.length - s) :=
    drop_commonSuffix oldRest newRest
  constructor
  · intro d h
    have hrest : Within d oldRest newRest := by
      rw [← Within.append_left_iff (old.take (commonPrefix old new)), List.take_append_drop, hbegin,
        List.take_append_drop]
      exact h
    rw [← Within.append_right_iff (oldRest.drop (oldRest.length - s)), List.take_append_drop, hend,
      List.take_append_drop]
    exact hrest
  · simp only [List.length_take, oldRest, newRest, List.length_drop]
    omega
  · intro ho hn
    have hold : oldRest ≠ [] := fun hnil => ho (by rw [hnil, List.take_nil])
    have hnew : newRest ≠ [] := fun hnil => hn (by rw [hnil, List.take_nil])
    have hs : s = commonPrefix oldRest.reverse newRest.reverse := rfl
    have hle : s ≤ oldRest.length := commonSuffix_le_left oldRest newRest
    have hle' : s ≤ newRest.length := by
      rw [hs, ← newRest.length_reverse]
      exact commonPrefix_le_right _ _
    have hreverse : (oldRest.take (oldRest.length - s)).reverse = oldRest.reverse.drop s := by
      rw [List.reverse_take, Nat.sub_sub_self hle]
    have hreverse' : (newRest.take (newRest.length - s)).reverse = newRest.reverse.drop s := by
      rw [List.reverse_take, Nat.sub_sub_self hle']
    -- the first lines are those after the common beginning, the last those before the common ending
    refine not_within_one ho hn ?_ ?_
    · rw [head?_take_of_ne_nil ho, head?_take_of_ne_nil hn]
      exact head?_drop_commonPrefix hold hnew
    · rw [← List.head?_reverse, ← List.head?_reverse, hreverse, hreverse']
      rw [← List.reverse_ne_nil_iff, hreverse] at ho
      rw [← List.reverse_ne_nil_iff, hreverse'] at hn
      exact head?_drop_commonPrefix ho hn

/-- A split leaves less on either side of it, if there is more than a step to go. -/
theorem exists_split {o n : List α} (ho : o ≠ []) (hn : n ≠ []) (hapart : ¬ Within 1 o n) :
    ∃ x y d e, Grid.middle? ⟨o.toArray, n.toArray⟩ = some (x, y) ∧
      Within d (o.take x) (n.take y) ∧ Within e (o.drop x) (n.drop y) ∧
      (∀ k, Within k o n → d + e ≤ k) ∧
      (o.take x).length + (n.take y).length < o.length + n.length ∧
      (o.drop x).length + (n.drop y).length < o.length + n.length := by
  obtain ⟨x, y, hmiddle, d, e, hway, hleast, hle, hle'⟩ := Grid.exists_middle
    (g := ⟨o.toArray, n.toArray⟩) (List.length_pos_of_ne_nil ho) (List.length_pos_of_ne_nil hn)
  obtain ⟨hx, hy, hstart, hend⟩ := hway
  have hlong (k : Nat) (h : Within k o n) : 2 ≤ k := by
    by_contra hk
    exact hapart (h.mono (by omega))
  have hstart : Within d (o.take x) (n.take y) := hstart
  have hend : Within e (o.drop x) (n.drop y) := hend
  have hx : x ≤ o.length := hx
  have hy : y ≤ n.length := hy
  have hboth : Within (d + e) o n := by
    have happend := hstart.append hend
    rwa [List.take_append_drop, List.take_append_drop] at happend
  have htwo := hlong _ hboth
  refine ⟨x, y, d, e, hmiddle, hstart, hend, hleast, ?_, ?_⟩
  · simp only [List.length_take]
    by_contra hwhole
    rw [List.take_of_length_le (by omega), List.take_of_length_le (by omega)] at hstart
    have hk := hleast d hstart
    omega
  · simp only [List.length_drop]
    by_contra hwhole
    have hx0 : x = 0 := by omega
    have hy0 : y = 0 := by omega
    rw [hx0, hy0, List.drop_zero, List.drop_zero] at hend
    have hk := hleast e hend
    omega

/-- The search finds a script that deletes and inserts as little as can be. -/
theorem cost_searchFrom_le {fuel : Nat} {old new : List α} (hfuel : old.length + new.length ≤ fuel)
    (i j : Nat) {d : Nat} (h : Within d old new) : cost (searchFrom fuel old new i j) ≤ d := by
  -- on the fuel: each split leaves fewer lines on either side of it
  induction fuel generalizing old new i j d with
  | zero =>
    rw [searchFrom, cost_append, cost_deleteAll, cost_insertAll]
    omega
  | succ fuel ih =>
    have hframed := framed old new
    rw [searchFrom, cost_append, cost_append, cost_keepAll, cost_keepAll, Nat.zero_add, Nat.add_zero]
    dsimp only at hframed ⊢
    generalize List.take _ (List.drop (commonPrefix old new) old) = o at hframed ⊢
    generalize List.take _ (List.drop (commonPrefix old new) new) = n at hframed ⊢
    obtain ⟨hwithin, hlength, hapart⟩ := hframed
    have hcore := hwithin d h
    have hreplace (i j : Nat) : cost (deleteAll o i j ++ insertAll n i j) = o.length + n.length := by
      rw [cost_append, cost_deleteAll, cost_insertAll]
    split
    · next hempty =>
      rw [hreplace]
      rcases hempty with hempty | hempty
      · rw [List.isEmpty_iff.mp hempty] at hcore ⊢
        have hle := hcore.symm.of_nil
        simpa using hle
      · rw [List.isEmpty_iff.mp hempty] at hcore ⊢
        have hle := hcore.of_nil
        simpa using hle
    · next hne =>
      rw [not_or, List.isEmpty_iff, List.isEmpty_iff] at hne
      obtain ⟨x, y, a, b, hmiddle, hbefore, hafter, hleast, hless, hless'⟩ :=
        exists_split hne.1 hne.2 (hapart hne.1 hne.2)
      rw [hmiddle]
      dsimp only
      rw [cost_append]
      have hfirst := ih (by omega) (i + commonPrefix old new) (j + commonPrefix old new) hbefore
      have hsecond := ih (by omega) (i + commonPrefix old new + x) (j + commonPrefix old new + y) hafter
      have hle := hleast d hcore
      omega

/-! ## Moving edits -/

namespace Cursor

omit [DecidableEq α] in
theorem cost_passDown (e kept : Edit α) (s : Nat) (below : List (Edit α)) :
    cost (passDown e kept s below) = cost below := by
  unfold passDown
  split
  · rfl
  · split
    · split
      · next hkeep => rw [cost_of_keep hkeep, cost_of_keep (by exact hkeep)]
      · exact cost_of_keep rfl _
    · exact cost_of_keep rfl _

omit [DecidableEq α] in
theorem cost_passUp (e kept : Edit α) (s : Nat) (above : List (Edit α)) :
    cost (passUp e kept s above).reverse = cost above.reverse := by
  unfold passUp
  split
  · rfl
  · split
    · split
      · next hkeep =>
        rw [List.reverse_cons, List.reverse_cons, cost_append, cost_append, cost_of_keep hkeep,
          cost_of_keep (by exact hkeep)]
      · rw [List.reverse_cons, cost_append, cost_of_keep rfl, cost_nil, Nat.add_zero]
    · rfl

/-- An edit that slides has as many lines as before. -/
theorem cost_slideUp (e : Edit α) (kept : List α) (script : List (Edit α)) :
    cost (e.slideUp kept (e.slackUp kept) :: script) = cost (e :: script) := by
  have hlength := congrArg List.length (e.slideUp_lines kept)
  simp only [List.length_append, List.length_take, List.length_drop] at hlength
  have hle := e.slackUp_le kept
  have hsame : (e.slideUp kept (e.slackUp kept)).lines.length = e.lines.length := by omega
  rw [cost_cons, cost_cons, hsame]
  rfl

theorem cost_slideDown (e : Edit α) (kept : List α) (script : List (Edit α)) :
    cost (e.slideDown kept (e.slackDown kept) :: script) = cost (e :: script) := by
  have hlength := congrArg List.length (e.slideDown_lines kept)
  simp only [List.length_append, List.length_take, List.length_drop] at hlength
  have hle := e.slackDown_le kept
  have hsame : (e.slideDown kept (e.slackDown kept)).lines.length = e.lines.length := by omega
  rw [cost_cons, cost_cons, hsame]
  rfl

omit [DecidableEq α] in
theorem cost_join {e f : Edit α} (h : e.kind = f.kind) (script : List (Edit α)) :
    cost ({ e with lines := e.lines ++ f.lines } :: script) = cost (e :: f :: script) := by
  have hchange : e.isChange = f.isChange := by
    unfold Edit.isChange
    rw [h]
  have hjoined : Edit.isChange { e with lines := e.lines ++ f.lines } = f.isChange := hchange
  rw [cost_cons, cost_cons, cost_cons, hjoined, hchange, List.length_append]
  split <;> omega

theorem cost_moveUp (above : List (Edit α)) (this : Edit α) (below : List (Edit α)) :
    cost (moveUp above this below).script = cost (above.reverse ++ this :: below) := by
  fun_induction moveUp above this below with
  | case1 => rfl
  | case2 previous above this below hkeep s left passed slid hleft ih =>
    rw [ih, List.reverse_cons, List.append_assoc, List.singleton_append, cost_append, cost_append,
      cost_of_keep hkeep, cost_slideUp, cost_cons, cost_cons, cost_passDown]
  | case3 previous above this below hkeep s left passed slid hleft =>
    rw [script, List.reverse_cons, List.reverse_cons, List.append_assoc, List.append_assoc,
      List.singleton_append, List.singleton_append, cost_append, cost_append, cost_of_keep hkeep,
      cost_of_keep (by exact hkeep), cost_slideUp, cost_cons, cost_cons, cost_passDown]
  | case4 previous above this below hkeep hsame ih =>
    rw [ih, List.reverse_cons, List.append_assoc, List.singleton_append, cost_append, cost_append,
      cost_join hsame]
  | case5 previous above this below hkeep hother ih =>
    rw [ih]
    simp only [List.reverse_cons, List.append_assoc, List.singleton_append, cost_append, cost_cons]
    omega

theorem cost_moveDown (above : List (Edit α)) (this : Edit α) (below : List (Edit α)) :
    cost (moveDown above this below).script = cost (above.reverse ++ this :: below) := by
  fun_induction moveDown above this below with
  | case1 => rfl
  | case2 above this next below hkeep s left passed slid hleft ih =>
    rw [ih, cost_append, cost_append, cost_passUp, cost_slideDown, cost_cons this, cost_cons this,
      cost_of_keep hkeep]
  | case3 above this next below hkeep s left passed slid hleft =>
    rw [script, cost_append, cost_append, cost_passUp, cost_slideDown, cost_cons this, cost_cons this,
      cost_of_keep hkeep, cost_of_keep (by exact hkeep)]
  | case4 above this next below hkeep hsame ih =>
    rw [ih, cost_append, cost_append, cost_join hsame.symm]
  | case5 above this next below hkeep hother ih =>
    rw [ih]
    simp only [List.reverse_cons, List.append_assoc, List.singleton_append, cost_append, cost_cons]
    omega

theorem cost_settle (c : Cursor α) : cost c.settle.script = cost c.script := by
  rw [settle, cost_moveDown]
  exact cost_moveUp c.above c.this c.below

end Cursor

theorem cost_settleFrom (kind : Kind) (count : Nat) (above below : List (Edit α)) :
    cost (settleFrom kind count above below) = cost (above.reverse ++ below) := by
  induction count generalizing above below with
  | zero => rfl
  | succ count ih =>
    rw [settleFrom]
    split
    · rfl
    · next this rest hrest =>
      have hsplit : below.takeWhile (·.kind ≠ kind) ++ this :: rest = below := by
        rw [← hrest, List.takeWhile_append_dropWhile]
      let c : Cursor α := ⟨(below.takeWhile (·.kind ≠ kind)).reverse ++ above, this, rest⟩
      have hc : c.script = above.reverse ++ below := by
        rw [Cursor.script, List.reverse_append, List.reverse_reverse, List.append_assoc, hsplit]
      have hsettled := Cursor.cost_settle c
      rw [hc, Cursor.script] at hsettled
      rw [ih, ← hsettled, List.reverse_cons, List.append_assoc, List.singleton_append]

/-- Moving the edits of a script about changes nothing in what it costs. -/
theorem cost_settle (script : List (Edit α)) : cost (settle script) = cost script := by
  have hall (kind : Kind) (script : List (Edit α)) : cost (settleAll kind script) = cost script :=
    cost_settleFrom kind _ [] script
  rw [settle, hall, hall]

/-- The script from one list to another is as short as any. -/
theorem cost_settle_search_le {old new : List α} {d : Nat} (h : Within d old new) :
    cost (settle (search old new)) ≤ d := by
  rw [cost_settle]
  exact cost_searchFrom_le (Nat.le_succ _) 0 0 h

end GoldenHarness.Diff

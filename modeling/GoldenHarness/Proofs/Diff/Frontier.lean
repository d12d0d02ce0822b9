import GoldenHarness.Proofs.Diff.Ways

/-!
# Where the frontiers meet

After round `d` a frontier has come as far on each of its diagonals as `d` steps lead. As long as the
two frontiers have not met, no way through the grid is as short as their rounds together; so when they
meet, the point at which they do is on a shortest way. They never meet beyond an edge of the grid, for
the way back would be too long.
-/

namespace GoldenHarness.Diff.Grid

variable {α : Type} {g : Grid α} {c d e i j x : Nat} {f other : Frontier}

/-! ## Diagonals -/

/-- The diagonals that a search advances on in round `d`: those of the grid that `d` steps lead to. -/
def OnRound (g : Grid α) (d c : Nat) : Prop :=
  (1 ≤ c ∧ c ≤ g.old.size + g.new.size + 1) ∧ (c ≤ g.origin + d ∧ g.origin ≤ c + d) ∧
    (c + g.origin + d) % 2 = 0

/-- A frontier that has come to `x` on diagonal `c` is as far there as `d` steps lead. -/
structure IsFurthest (g : Grid α) (d c x : Nat) : Prop where
  /-- The point is not above the upper edge. -/
  below : c ≤ x + g.origin
  /-- The point can be reached. -/
  reached : g.Reaches d x (x + g.origin - c)
  /-- No point of the grid further down the diagonal can be reached. -/
  furthest : ∀ i j, i ≤ g.old.size → j ≤ g.new.size → i + g.origin = j + c → g.FromStart d i j → i ≤ x

/-- Diagonal `c` is entered at `x` in round `d`: the point can be reached, and no step of the round leads
onto the diagonal further down. -/
structure IsEntry (g : Grid α) (d c x : Nat) : Prop where
  /-- The point is not above the upper edge. -/
  below : c ≤ x + g.origin
  /-- The point can be reached. -/
  reached : g.Reaches d x (x + g.origin - c)
  /-- No step from the left leads further. -/
  fromLeft : ∀ i j e, i + 1 ≤ g.old.size → j ≤ g.new.size → i + 1 + g.origin = j + c → d = e + 1 →
    g.FromStart e i j → i + 1 ≤ x
  /-- No step from above leads further. -/
  fromAbove : ∀ i j e, i ≤ g.old.size → j + 1 ≤ g.new.size → i + g.origin = j + 1 + c → d = e + 1 →
    g.FromStart e i j → i ≤ x

/-- A frontier before round `d`: on the diagonals of the round before it is as far as it could come. -/
structure Stands (g : Grid α) (d : Nat) (f : Frontier) : Prop where
  /-- There is a place for each diagonal, and for one more on either side. -/
  size : f.size = g.old.size + g.new.size + 3
  /-- Nothing is on the diagonal below the lower left corner. -/
  low : f.getD 0 0 = 0
  /-- Nothing is on the diagonal above the upper right corner. -/
  high : f.getD (g.old.size + g.new.size + 2) 0 = 0
  /-- The first round begins at the corner. -/
  start : d = 0 → f.getD (g.origin + 1) 0 = 0
  /-- The round before has been made. -/
  furthest : ∀ e c, d = e + 1 → g.OnRound e c → g.IsFurthest e c (f.getD c 0)

/-- Two frontiers miss one another on every diagonal on which they could have met. -/
def Misses (g : Grid α) (d reached : Nat) (other f : Frontier) : Prop :=
  ∀ c, g.OnRound d c → g.isNear reached c →
    f.getD c 0 + other.getD (g.opposite c) 0 < g.old.size

/-- Two frontiers meet on a diagonal that was entered at a point that can be reached. -/
def Meets (g : Grid α) (d reached : Nat) (other : Frontier) (m : Meeting) : Prop :=
  ∃ c length, g.OnRound d c ∧ g.isNear reached c ∧ c ≤ m.entryOld + g.origin ∧
    m.entryNew = m.entryOld + g.origin - c ∧ m.farOld = m.entryOld + length ∧
    m.farNew = m.entryNew + length ∧ g.Reaches d m.entryOld m.entryNew ∧
    g.Agree m.entryOld m.entryNew length ∧ g.old.size ≤ m.farOld + other.getD (g.opposite c) 0

/-- The diagonals of a round are every second one from the lowest to the highest. -/
theorem onRound_iff (hold : 0 < g.old.size) (hnew : 0 < g.new.size) :
    g.OnRound d c ↔ g.lowest d ≤ c ∧ c ≤ g.highest d ∧ (c + g.lowest d) % 2 = 0 := by
  unfold OnRound lowest highest origin
  constructor
  · rintro ⟨⟨h1, h2⟩, ⟨h3, h4⟩, h5⟩
    split <;> split <;> omega
  · rintro ⟨h1, h2, h3⟩
    split at h1 <;> split at h2 <;> simp_all <;> omega

theorem lowest_le_highest (hold : 0 < g.old.size) (hnew : 0 < g.new.size) :
    g.lowest d ≤ g.highest d ∧ (g.highest d + g.lowest d) % 2 = 0 := by
  unfold lowest highest origin
  split <;> split <;> omega

/-! ## One diagonal -/

/-- Following a diagonal leads as far as the lines agree. -/
theorem follow_spec [DecidableEq α] (g : Grid α) (fuel i j : Nat) :
    ∃ length, g.follow fuel i j = i + length ∧ g.Agree i j length ∧
      (g.old.size ≤ i + fuel → ¬ g.Agree (i + length) (j + length) 1) := by
  induction fuel generalizing i j with
  | zero =>
    refine ⟨0, rfl, nofun, ?_⟩
    intro hfuel hagree
    obtain ⟨hi, -⟩ := hagree 0 Nat.one_pos
    omega
  | succ fuel ih =>
    by_cases hagree : g.Agree i j 1
    · obtain ⟨hi, hj, heq⟩ := hagree 0 Nat.one_pos
      simp only [Nat.add_zero] at hi hj heq
      obtain ⟨length, hfollow, hrest, hstop⟩ := ih (i + 1) (j + 1)
      refine ⟨length + 1, ?_, ?_, ?_⟩
      · rw [follow, dif_pos hi, dif_pos hj, if_pos heq, hfollow]
        omega
      · intro k hk
        cases k with
        | zero => exact ⟨hi, hj, heq⟩
        | succ k =>
          obtain ⟨hi', hj', heq'⟩ := hrest k (Nat.lt_of_succ_lt_succ hk)
          refine ⟨by omega, by omega, ?_⟩
          simp only [Nat.add_assoc, Nat.add_comm 1 k] at heq'
          exact heq'
      · intro hfuel
        have hstop := hstop (by omega)
        rwa [Nat.add_assoc, Nat.add_assoc, Nat.add_comm 1 length] at hstop
    · refine ⟨0, ?_, nofun, fun _ => hagree⟩
      rw [follow]
      split
      · next hi =>
        split
        · next hj =>
          have hne : g.old[i] ≠ g.new[j] := by
            intro heq
            apply hagree
            intro k hk
            obtain rfl : k = 0 := by omega
            exact ⟨hi, hj, heq⟩
          exact if_neg hne
        · rfl
      · rfl

/-- A point of the previous round, one diagonal further up. -/
theorem Stands.upper (hf : g.Stands (e + 1) f) (hc : g.OnRound e (c + 1)) :
    c + 1 ≤ f.getD (c + 1) 0 + g.origin ∧
      g.Reaches (e + 1) (f.getD (c + 1) 0) (f.getD (c + 1) 0 + g.origin - c) := by
  obtain ⟨hbelow, hreached, -⟩ := hf.furthest e (c + 1) rfl hc
  refine ⟨hbelow, ?_⟩
  have hdown := hreached.down
  have hrow : f.getD (c + 1) 0 + g.origin - (c + 1) + 1 = f.getD (c + 1) 0 + g.origin - c := by omega
  rwa [hrow] at hdown

/-- A point of the previous round, one diagonal further down. -/
theorem Stands.lower (hf : g.Stands (e + 1) f) (hc : g.OnRound e (c - 1)) :
    c ≤ f.getD (c - 1) 0 + 1 + g.origin ∧
      g.Reaches (e + 1) (f.getD (c - 1) 0 + 1) (f.getD (c - 1) 0 + 1 + g.origin - c) := by
  obtain ⟨hbelow, hreached, -⟩ := hf.furthest e (c - 1) rfl hc
  refine ⟨by omega, ?_⟩
  have hright := hreached.right
  have hpos : 1 ≤ c - 1 := hc.1.1
  have hrow : f.getD (c - 1) 0 + g.origin - (c - 1) = f.getD (c - 1) 0 + 1 + g.origin - c := by omega
  rwa [hrow] at hright

/-- Round `d` enters a diagonal at a point that can be reached, and no step of the round leads onto the
diagonal any further down. -/
theorem isEntry_enter (hold : 0 < g.old.size) (hf : g.Stands d f) (hc : g.OnRound d c) :
    g.IsEntry d c (g.enter f d c) := by
  obtain ⟨⟨hc1, hc2⟩, ⟨hc3, hc4⟩, hc5⟩ := hc
  have horigin : g.origin = g.new.size + 1 := rfl
  cases d with
  | zero =>
    have hcorner : c = g.origin := by omega
    have henter : g.enter f 0 c = 0 := by
      rw [enter, if_pos (by omega), hcorner]
      exact hf.start rfl
    rw [henter]
    refine ⟨by omega, ?_, nofun, nofun⟩
    have hrow : 0 + g.origin - c = 0 := by omega
    rw [hrow]
    exact Reaches.start g
  | succ e =>
    -- what the neighbours say of the points that a step leads from
    have hupper (hup : g.OnRound e (c + 1)) {i j : Nat} (hi : i ≤ g.old.size) (hj : j ≤ g.new.size)
        (hdiagonal : i + g.origin = j + 1 + c) (h : g.FromStart e i j) : i ≤ f.getD (c + 1) 0 :=
      (hf.furthest e (c + 1) rfl hup).furthest i j hi hj (by omega) h
    have hlower (hdown : g.OnRound e (c - 1)) {i j : Nat} (hi : i ≤ g.old.size)
        (hj : j ≤ g.new.size) (hdiagonal : i + 1 + g.origin = j + c) (h : g.FromStart e i j) :
        i ≤ f.getD (c - 1) 0 := by
      have hpos : 1 ≤ c - 1 := hdown.1.1
      exact (hf.furthest e (c - 1) rfl hdown).furthest i j hi hj (by omega) h
    unfold enter
    dsimp only
    split
    · next hlowest =>
      have hup : g.OnRound e (c + 1) := ⟨⟨by omega, by omega⟩, ⟨by omega, by omega⟩, by omega⟩
      have hpoint := hf.upper hup
      refine ⟨by omega, hpoint.2, ?_, ?_⟩
      · rintro i j _ hi hj hdiagonal ⟨rfl⟩ h
        have hbounds := h.bounds (by omega) hj
        omega
      · rintro i j _ hi hj hdiagonal ⟨rfl⟩ h
        exact hupper hup hi (by omega) hdiagonal h
    next hlowest =>
    split
    · next hhighest =>
      have hdown : g.OnRound e (c - 1) := ⟨⟨by omega, by omega⟩, ⟨by omega, by omega⟩, by omega⟩
      have hpoint := hf.lower hdown
      refine ⟨hpoint.1, hpoint.2, ?_, ?_⟩
      · rintro i j _ hi hj hdiagonal ⟨rfl⟩ h
        exact Nat.succ_le_succ (hlower hdown (by omega) hj hdiagonal h)
      · rintro i j _ hi hj hdiagonal ⟨rfl⟩ h
        have hbounds := h.bounds hi (by omega)
        omega
    next hhighest =>
    split
    · next hfurther =>
      have hinside : c + 1 ≠ g.old.size + g.new.size + 2 := by
        intro hedge
        rw [hedge, hf.high] at hfurther
        cases hfurther
      have hup : g.OnRound e (c + 1) := ⟨⟨by omega, by omega⟩, ⟨by omega, by omega⟩, by omega⟩
      have hpoint := hf.upper hup
      refine ⟨by omega, hpoint.2, ?_, ?_⟩
      · rintro i j _ hi hj hdiagonal ⟨rfl⟩ h
        have hdown : g.OnRound e (c - 1) := ⟨⟨by omega, by omega⟩, ⟨by omega, by omega⟩, by omega⟩
        have hle := hlower hdown (by omega) hj hdiagonal h
        omega
      · rintro i j _ hi hj hdiagonal ⟨rfl⟩ h
        exact hupper hup hi (by omega) hdiagonal h
    · next hfurther =>
      have hpoint : c ≤ f.getD (c - 1) 0 + 1 + g.origin ∧
          g.Reaches (e + 1) (f.getD (c - 1) 0 + 1) (f.getD (c - 1) 0 + 1 + g.origin - c) := by
        by_cases hedge : c = 1
        · -- below the lower left corner the frontier has nothing, and the step leads over the edge
          subst hedge
          rw [Nat.sub_self, hf.low]
          refine ⟨by omega, g.new.size + 1, ?_, by omega⟩
          have hall := fromStart_all hold (Nat.le_refl g.new.size)
          have hwhole : g.new.toList.take (0 + 1 + g.origin - 1) = g.new.toList.take g.new.size := by
            rw [List.take_of_length_le (by rw [Array.length_toList]; omega), ← Array.length_toList,
              List.take_length]
          rw [FromStart, hwhole]
          exact hall.mono (by omega)
        · have hdown : g.OnRound e (c - 1) := ⟨⟨by omega, by omega⟩, ⟨by omega, by omega⟩, by omega⟩
          exact hf.lower hdown
      refine ⟨hpoint.1, hpoint.2, ?_, ?_⟩
      · rintro i j _ hi hj hdiagonal ⟨rfl⟩ h
        have hdown : g.OnRound e (c - 1) := ⟨⟨by omega, by omega⟩, ⟨by omega, by omega⟩, by omega⟩
        exact Nat.succ_le_succ (hlower hdown (by omega) hj hdiagonal h)
      · rintro i j _ hi hj hdiagonal ⟨rfl⟩ h
        have hup : g.OnRound e (c + 1) := ⟨⟨by omega, by omega⟩, ⟨by omega, by omega⟩, by omega⟩
        have hle := hupper hup hi (by omega) hdiagonal h
        omega

/-- Following a diagonal from its entry leads as far as the round can come on it. -/
theorem IsEntry.isFurthest {length : Nat} (h : g.IsEntry d c x)
    (hagree : g.Agree x (x + g.origin - c) length)
    (hstop : ¬ g.Agree (x + length) (x + g.origin - c + length) 1) :
    g.IsFurthest d c (x + length) := by
  have hbelow := h.below
  refine ⟨by omega, ?_, ?_⟩
  · have hreached := hagree.reaches h.reached
    have hrow : x + g.origin - c + length = x + length + g.origin - c := by omega
    rwa [hrow] at hreached
  · -- on the points of the diagonal: where a way comes down it, it began where the lines agree
    intro i
    induction i with
    | zero => intro _ _ _ _ _; exact Nat.zero_le _
    | succ i ih =>
      intro j hi hj hdiagonal hstart
      rcases hstart.last_cases hi hj with hzero | ⟨i', j', hi', rfl, hkept, hbefore⟩ |
        ⟨i', e, hi', rfl, hbefore⟩ | ⟨j', e, rfl, rfl, hbefore⟩
      · cases hzero
      · obtain rfl : i = i' := Nat.succ.inj hi'
        have hle := ih j' (by omega) (by omega) (by omega) hbefore
        have hne : i ≠ x + length := by
          intro heq
          apply hstop
          have hrow : x + g.origin - c + length = j' := by omega
          rwa [← heq, hrow]
        omega
      · obtain rfl : i = i' := Nat.succ.inj hi'
        have hle := h.fromLeft i j e hi hj hdiagonal rfl hbefore
        omega
      · have hle := h.fromAbove (i + 1) j' e hi hj hdiagonal rfl hbefore
        omega

/-! ## One round -/

theorem getD_setIfInBounds_self (hc : c < f.size) : (f.setIfInBounds c x).getD c 0 = x := by
  rw [Array.getD_eq_getD_getElem?, Array.getElem?_setIfInBounds_self_of_lt hc, Option.getD_some]

theorem getD_setIfInBounds_of_ne {c' : Nat} (hne : c ≠ c') :
    (f.setIfInBounds c x).getD c' 0 = f.getD c' 0 := by
  rw [Array.getD_eq_getD_getElem?, Array.getElem?_setIfInBounds_ne hne, Array.getD_eq_getD_getElem?]

/-- A diagonal of the round is none of those that the round looks at. -/
theorem Stands.set (hf : g.Stands d f) (hc : g.OnRound d c) (x : Nat) :
    g.Stands d (f.setIfInBounds c x) := by
  obtain ⟨⟨hc1, hc2⟩, ⟨hc3, hc4⟩, hc5⟩ := hc
  constructor
  · rw [Array.size_setIfInBounds]
    exact hf.size
  · rw [getD_setIfInBounds_of_ne (by omega)]
    exact hf.low
  · rw [getD_setIfInBounds_of_ne (by omega)]
    exact hf.high
  · intro hd
    rw [getD_setIfInBounds_of_ne (by omega)]
    exact hf.start hd
  · intro e c' hd hc'
    have hparity := hc'.2.2
    rw [getD_setIfInBounds_of_ne (by omega)]
    exact hf.furthest e c' hd hc'

/-- In the middle of round `d`, with `left` diagonals to go: the others have been followed as far as can
be, and the other frontier was not met on them. -/
structure Sweeping (g : Grid α) (d reached : Nat) (other : Frontier) (left : Nat) (f : Frontier) :
    Prop where
  /-- What the round looks at is as it was. -/
  stands : g.Stands d f
  /-- The round has been made on the diagonals above. -/
  furthest : ∀ c, g.OnRound d c → g.lowest d + 2 * left ≤ c → g.IsFurthest d c (f.getD c 0)
  /-- The frontiers did not meet on the diagonals above. -/
  misses : ∀ c, g.OnRound d c → g.lowest d + 2 * left ≤ c → g.isNear reached c →
    f.getD c 0 + other.getD (g.opposite c) 0 < g.old.size

variable [DecidableEq α] {reached left : Nat}

/-- The end of a round: either the frontiers meet, or the round has been made and they do not. -/
def IsOutcome (g : Grid α) (d reached : Nat) (other : Frontier) : Meeting ⊕ Frontier → Prop
  | .inl m => g.Meets d reached other m
  | .inr f => g.Stands (d + 1) f ∧ g.Misses d reached other f

theorem isOutcome_sweep (hold : 0 < g.old.size) (hnew : 0 < g.new.size)
    (hf : g.Sweeping d reached other left f) (hc : left ≠ 0 → c + 2 = g.lowest d + 2 * left)
    (hhigh : c ≤ g.highest d) : g.IsOutcome d reached other (g.sweep d reached other left c f) := by
  induction left generalizing c f with
  | zero =>
    rw [sweep]
    have hround {c : Nat} (hc : g.OnRound d c) : g.lowest d + 2 * 0 ≤ c :=
      ((onRound_iff hold hnew).mp hc).1
    refine ⟨⟨hf.stands.size, hf.stands.low, hf.stands.high, nofun, ?_⟩, ?_⟩
    · rintro e c ⟨rfl⟩ hc
      exact hf.furthest c hc (hround hc)
    · intro c hc
      exact hf.misses c hc (hround hc)
  | succ left ih =>
    have hc := hc (Nat.succ_ne_zero left)
    have hround : g.OnRound d c := (onRound_iff hold hnew).mpr ⟨by omega, hhigh, by omega⟩
    have hsize : c < f.size := by
      rw [hf.stands.size]
      have hc2 := hround.1.2
      omega
    have hentry := isEntry_enter hold hf.stands hround
    obtain ⟨length, hfollow, hagree, hstop⟩ := g.follow_spec
      (g.old.size - g.enter f d c) (g.enter f d c) (g.enter f d c + g.origin - c)
    have hfurthest := hentry.isFurthest hagree (hstop (by omega))
    rw [sweep, hfollow]
    split
    · next hmeet =>
      refine ⟨c, length, hround, hmeet.1, hentry.below, rfl, rfl, ?_, hentry.reached, hagree, hmeet.2⟩
      dsimp only
      omega
    · next hmiss =>
      have hother {c' : Nat} (hround' : g.OnRound d c') (hc' : g.lowest d + 2 * left ≤ c')
          (hne : c ≠ c') : g.lowest d + 2 * (left + 1) ≤ c' := by
        have hparity := ((onRound_iff hold hnew).mp hround').2.2
        have hparity' := ((onRound_iff hold hnew).mp hround).2.2
        omega
      refine ih ⟨hf.stands.set hround _, ?_, ?_⟩ (by omega) (by omega)
      · intro c' hround' hc'
        by_cases hne : c = c'
        · subst hne
          rwa [getD_setIfInBounds_self hsize]
        · rw [getD_setIfInBounds_of_ne hne]
          exact hf.furthest c' hround' (hother hround' hc' hne)
      · intro c' hround' hc' hnear
        by_cases hne : c = c'
        · subst hne
          rw [getD_setIfInBounds_self hsize]
          exact Nat.lt_of_not_le fun hle => hmiss ⟨hnear, hle⟩
        · rw [getD_setIfInBounds_of_ne hne]
          exact hf.misses c' hround' (hother hround' hc' hne) hnear

theorem isOutcome_advance (hold : 0 < g.old.size) (hnew : 0 < g.new.size) (hf : g.Stands d f)
    (reached : Nat) (other : Frontier) :
    g.IsOutcome d reached other (g.advance d reached other f) := by
  have hbounds := lowest_le_highest (d := d) hold hnew
  rw [advance]
  refine isOutcome_sweep hold hnew ⟨hf, ?_, ?_⟩ (fun _ => by omega) (Nat.le_refl _)
  · intro c hc hhigh
    have hle := ((onRound_iff hold hnew).mp hc).2.1
    omega
  · intro c hc hhigh
    have hle := ((onRound_iff hold hnew).mp hc).2.1
    omega

end GoldenHarness.Diff.Grid

import GoldenHarness.Proofs.Diff.Frontier

/-!
# A point on a shortest way

The two frontiers meet, and where they meet the grid is split at a point on a shortest way. The first
half of the way is as long as the second or one step longer.
-/

namespace GoldenHarness.Diff.Grid

variable {α : Type} {g : Grid α} {c d e i j : Nat} {f other : Frontier}

@[simp] theorem origin_flip (g : Grid α) : g.flip.origin = g.origin := by simp [origin]

/-- A point that `d` steps lead to and from which `e` steps lead on. -/
structure OnWay (g : Grid α) (d e i j : Nat) : Prop where
  /-- The point is no further right than the grid. -/
  old_le : i ≤ g.old.size
  /-- The point is no further down than the grid. -/
  new_le : j ≤ g.new.size
  /-- The steps before the point. -/
  fromStart : g.FromStart d i j
  /-- The steps after the point. -/
  toEnd : g.ToEnd e i j

theorem OnWay.flip (h : g.flip.OnWay d e i j) :
    g.OnWay e d (g.old.size - i) (g.new.size - j) := by
  obtain ⟨hi, hj, hstart, hend⟩ := h
  rw [size_old_flip] at hi
  rw [size_new_flip] at hj
  exact ⟨Nat.sub_le _ _, Nat.sub_le _ _, (toEnd_flip hi hj).mp hend, fromStart_flip.mp hstart⟩

theorem isNear_iff {reached c : Nat} :
    g.isNear reached c ↔ c < g.target + reached ∧ g.target < c + reached := decide_eq_true_iff

/-- Two diagonals of one way, told from either corner. -/
theorem onRound_opposite (hc : g.OnRound d c) (hnear : g.isNear (e + 1) c)
    (hparity : (g.old.size + g.new.size + d + e) % 2 = 0) : g.flip.OnRound e (g.opposite c) := by
  obtain ⟨⟨hc1, hc2⟩, ⟨hc3, hc4⟩, hc5⟩ := hc
  rw [isNear_iff] at hnear
  have horigin : g.origin = g.new.size + 1 := rfl
  have htarget : g.target = g.old.size + 1 := rfl
  have hopposite : g.opposite c = g.origin + g.target - c := rfl
  unfold OnRound
  rw [size_old_flip, size_new_flip, origin_flip]
  omega

section Meeting

variable (hother : g.flip.Stands (e + 1) other)
  (hparity : (g.old.size + g.new.size + d + e) % 2 = 0)
  (hleast : ∀ n, g.Across n → d + e ≤ n)
include hother hparity hleast

/-- Where the frontiers meet, the diagonal was entered and left on a shortest way. -/
theorem Meets.onWay {m : Meeting} (h : g.Meets d (e + 1) other m) :
    g.OnWay d e m.entryOld m.entryNew ∧ g.OnWay d e m.farOld m.farNew := by
  obtain ⟨x, y, _, _⟩ := m
  obtain ⟨c, length, hround, hnear, hbelow, hrow, hfarOld, hfarNew, hreached, hagree, hmeet⟩ := h
  dsimp only at hbelow hrow hfarOld hfarNew hreached hagree hmeet ⊢
  subst hfarOld hfarNew
  obtain ⟨hbelow', ⟨n', hback, hn'⟩, -⟩ :=
    hother.furthest e (g.opposite c) rfl (onRound_opposite hround hnear hparity)
  rw [fromStart_flip] at hback
  rw [origin_flip] at hbelow' hback hn'
  rw [size_old_flip, size_new_flip] at hn'
  generalize other.getD (g.opposite c) 0 = p at hmeet hbelow' hback hn'
  rw [isNear_iff] at hnear
  have horigin : g.origin = g.new.size + 1 := rfl
  have htarget : g.target = g.old.size + 1 := rfl
  have hopposite : g.opposite c = g.origin + g.target - c := rfl
  have hrounds := hround.2.1
  have hdiagonal := hround.1
  -- over an edge the way back is too long: all of the edge that was passed has to be gone along again
  have hentry : x ≤ g.old.size ∧ y ≤ g.new.size := by
    obtain ⟨n, hstart, hn⟩ := hreached
    have hle := hleast _ (hstart.across (toEnd_all g x y))
    omega
  have hcorner : p ≤ g.old.size ∧ p + g.origin - g.opposite c ≤ g.new.size := by
    have hstart := fromStart_all (Nat.sub_le g.old.size p)
      (Nat.sub_le g.new.size (p + g.origin - g.opposite c))
    have hle := hleast _ (hstart.across hback)
    omega
  have hfar := hagree.bounds hentry.1 hentry.2
  have hend : g.ToEnd e (x + length) (y + length) := by
    have hfurther := hback.further (k := x + length - (g.old.size - p)) (by omega) (by omega)
    have hx : g.old.size - p + (x + length - (g.old.size - p)) = x + length := by omega
    have hy : g.new.size - (p + g.origin - g.opposite c) + (x + length - (g.old.size - p)) =
        y + length := by omega
    rw [hx, hy] at hfurther
    exact hfurther.mono (by omega)
  exact ⟨⟨hentry.1, hentry.2, hreached.fromStart, hagree.toEnd hend⟩,
    ⟨hfar.1, hfar.2, (hagree.reaches hreached).fromStart, hend⟩⟩

/-- Frontiers that miss one another leave no way as short as their rounds together, nor one that is a
step longer. -/
theorem Misses.least (hf : g.Stands (d + 1) f) (h : g.Misses d (e + 1) other f) :
    ∀ n, g.Across n → d + e + 2 ≤ n := by
  intro n hacross
  by_contra hshort
  have hle := hleast n hacross
  have hexact : g.Across (d + e) := by
    by_cases hn : n = d + e
    · rwa [hn] at hacross
    · have hpred := hacross.pred (by omega)
      exact hpred.2.mono (by omega)
  obtain ⟨x, y, hx, hy, hstart, hend⟩ := hexact.exists_between
  rw [Array.length_toList] at hx hy
  have hodd : (d + x + y) % 2 ≠ 1 := by
    intro hodd
    have hpred := FromStart.pred hstart hx hy hodd
    have hle := hleast _ (hpred.2.across hend)
    omega
  have hbefore := FromStart.bounds hstart hx hy
  have hafter := ToEnd.bounds hend hx hy
  have horigin : g.origin = g.new.size + 1 := rfl
  have htarget : g.target = g.old.size + 1 := rfl
  let c := x + g.origin - y
  have hc : c = x + g.origin - y := rfl
  have hopposite : g.opposite c = g.origin + g.target - c := rfl
  have hround : g.OnRound d c := by
    refine ⟨⟨?_, ?_⟩, ⟨?_, ?_⟩, ?_⟩ <;> omega
  have hnear : g.isNear (e + 1) c := by
    rw [isNear_iff]
    omega
  have hforward := (hf.furthest d c rfl hround).furthest x y hx hy (by omega) hstart
  have hbackward := (hother.furthest e (g.opposite c) rfl
    (onRound_opposite hround hnear hparity)).furthest (g.old.size - x) (g.new.size - y)
    (by rw [size_old_flip]; omega) (by rw [size_new_flip]; omega) (by rw [origin_flip]; omega)
    (by rw [fromStart_flip, Nat.sub_sub_self hx, Nat.sub_sub_self hy]; exact hend)
  have hmiss := h c hround hnear
  omega

end Meeting

/-! ## Rounds -/

theorem not_isNear_zero (c : Nat) : ¬ g.isNear 0 c := by
  rw [isNear_iff]
  omega

theorem not_meets_zero {m : Meeting} : ¬ g.Meets d 0 other m := by
  rintro ⟨c, length, hround, hnear, -⟩
  exact not_isNear_zero c hnear

/-- A point that splits the grid: the steps before it and after it make up a shortest way, and they are
equally many or there is one more before it. -/
def Splits (g : Grid α) (i j : Nat) : Prop :=
  ∃ d e, g.OnWay d e i j ∧ (∀ n, g.Across n → d + e ≤ n) ∧ e ≤ d ∧ d ≤ e + 1

variable [DecidableEq α] {forward backward : Frontier}

/-- A round from which the search goes on. -/
theorem exists_stands_advance (hold : 0 < g.old.size) (hnew : 0 < g.new.size) (hf : g.Stands d f)
    (other : Frontier) {reached : Nat} (hmeets : ∀ m, ¬ g.Meets d reached other m) :
    ∃ f', g.advance d reached other f = .inr f' ∧ g.Stands (d + 1) f' ∧
      g.Misses d reached other f' := by
  have houtcome := isOutcome_advance hold hnew hf reached other
  cases hadvance : g.advance d reached other f with
  | inl m =>
    rw [hadvance] at houtcome
    exact absurd houtcome (hmeets m)
  | inr f' =>
    rw [hadvance] at houtcome
    exact ⟨f', rfl, houtcome⟩

/-- The rounds of both frontiers lead to a meeting on a shortest way. Before round `d` it is known of all
ways how long they are at least. -/
theorem rounds_spec (hold : 0 < g.old.size) (hnew : 0 < g.new.size) {fuel : Nat}
    (hforward : g.Stands d forward) (hbackward : g.flip.Stands d backward)
    (hleast : ∀ n, g.Across n → 2 * d ≤ n + 1)
    (hfuel : fuel + d = (g.old.size + g.new.size + 1) / 2 + 1) :
    ∃ i j, g.rounds g.flip fuel d forward backward = some (i, j) ∧ g.Splits i j := by
  induction fuel generalizing d forward backward with
  | zero =>
    have hle := hleast _ (across_all g)
    omega
  | succ fuel ih =>
    have holdFlip : 0 < g.flip.old.size := by rwa [size_old_flip]
    have hnewFlip : 0 < g.flip.new.size := by rwa [size_new_flip]
    -- a way whose length is odd where the number of lines is even, or the reverse, is not the shortest
    have hparity {k n : Nat} (hk : ∀ n, g.Across n → k ≤ n + 1)
        (hsame : (g.old.size + g.new.size + k) % 2 = 0) (hacross : g.Across n) : k ≤ n := by
      by_cases hn : (n + g.old.size + g.new.size) % 2 = 1
      · have hpred := hacross.pred hn
        have hle := hk _ hpred.2
        omega
      · have hle := hk n hacross
        omega
    rw [rounds]
    by_cases hodd : (g.old.size + g.new.size) % 2 = 1
    · -- the forward search may meet the other one, which has made one round less
      rw [if_pos hodd, if_pos hodd]
      have houtcome := isOutcome_advance hold hnew hforward d backward
      cases hadvance : g.advance d d backward forward with
      | inl m =>
        rw [hadvance] at houtcome
        cases d with
        | zero => exact absurd houtcome not_meets_zero
        | succ e =>
          have hleast' : ∀ n, g.Across n → e + 1 + e ≤ n := by
            intro n hn
            have hle := hleast n hn
            omega
          have hway := (Meets.onWay hbackward (by omega) hleast' houtcome).1
          exact ⟨_, _, rfl, e + 1, e, hway, hleast', by omega, by omega⟩
      | inr forward' =>
        rw [hadvance] at houtcome
        obtain ⟨hforward', hmisses⟩ := houtcome
        obtain ⟨backward', hadvance', hbackward', -⟩ := exists_stands_advance holdFlip hnewFlip
          hbackward forward' fun _ => not_meets_zero
        dsimp only
        rw [hadvance']
        refine ih hforward' hbackward' ?_ (by omega)
        intro n hn
        cases d with
        | zero =>
          have hle := hparity (n := n) (k := 1) (fun _ _ => by omega) (by omega) hn
          omega
        | succ e =>
          have hle := hmisses.least hbackward (by omega)
            (fun n hn => by have hle := hleast n hn; omega) hforward' n hn
          omega
    · -- the backward search may meet the other one, which has made as many rounds
      rw [if_neg hodd, if_neg hodd]
      have hleast' : ∀ n, g.flip.Across n → d + d ≤ n := by
        intro n hn
        have hle := hparity (k := 2 * d) hleast (by omega) (across_flip.mp hn)
        omega
      have hsizes : (g.flip.old.size + g.flip.new.size + d + d) % 2 = 0 := by
        rw [size_old_flip, size_new_flip]
        omega
      obtain ⟨forward', hadvance', hforward', -⟩ := exists_stands_advance hold hnew
        hforward backward fun _ => not_meets_zero
      rw [hadvance']
      dsimp only
      have hother : g.flip.flip.Stands (d + 1) forward' := by rwa [flip_flip]
      have houtcome := isOutcome_advance holdFlip hnewFlip hbackward (d + 1) forward'
      cases hadvance : g.flip.advance d (d + 1) forward' backward with
      | inl m =>
        rw [hadvance] at houtcome
        have hway := (Meets.onWay hother hsizes hleast' houtcome).2.flip
        have hshort : ∀ n, g.Across n → d + d ≤ n := fun n hn => hleast' n (across_flip.mpr hn)
        exact ⟨_, _, rfl, d, d, hway, hshort, by omega, by omega⟩
      | inr backward' =>
        rw [hadvance] at houtcome
        obtain ⟨hbackward', hmisses⟩ := houtcome
        refine ih hforward' hbackward' ?_ (by omega)
        intro n hn
        have hle := hmisses.least hother hsizes hleast' hbackward' n (across_flip.mpr hn)
        omega

omit [DecidableEq α] in
/-- A frontier that has not begun. -/
theorem stands_zero (g : Grid α) :
    g.Stands 0 (Array.replicate (g.old.size + g.new.size + 3) 0) := by
  have hzero (c : Nat) : (Array.replicate (g.old.size + g.new.size + 3) 0).getD c 0 = 0 := by
    rw [Array.getD_eq_getD_getElem?, Array.getElem?_replicate]
    split <;> rfl
  exact ⟨Array.size_replicate, hzero _, hzero _, fun _ => hzero _, nofun⟩

/-- The grid of two lists that are not empty is split at a point on a shortest way. -/
theorem exists_middle (hold : 0 < g.old.size) (hnew : 0 < g.new.size) :
    ∃ i j, g.middle? = some (i, j) ∧ g.Splits i j := by
  have hbackward := stands_zero g.flip
  rw [size_old_flip, size_new_flip] at hbackward
  exact rounds_spec hold hnew (stands_zero g) hbackward (fun n _ => by omega) (by omega)

end GoldenHarness.Diff.Grid

import GoldenHarness.Text.Utf8
import Mathlib.Tactic.Ring

/-!
# The first segment of a byte string

An ASCII byte is a segment of its own, whatever follows it. A byte above the ASCII range never begins
an ASCII character: the bounds on the bytes after it rule out overlong forms. So the ASCII segments
of a byte string stand for the bytes that they encode.
-/

namespace GoldenHarness.Utf8

namespace Reader

/-- What was read before stays in front of what is read from some state on. -/
theorem finish_foldl_push (done : List Segment) (pending : Option Pending) (bs : Bytes) :
    (bs.foldl push ⟨done, pending⟩).finish =
      done.reverse ++ (bs.foldl push ⟨[], pending⟩).finish := by
  induction bs generalizing done pending with
  | nil => cases pending <;> simp [finish]
  | cons b rest ih =>
    have hpush : push ⟨done, pending⟩ b =
        ⟨(push ⟨[], pending⟩ b).done ++ done, (push ⟨[], pending⟩ b).pending⟩ := by
      unfold push
      dsimp only
      split
      · unfold first
        split <;> rfl
      · split
        · split <;> rfl
        · unfold first
          split <;> rfl
    rw [List.foldl_cons, List.foldl_cons, hpush, ih,
      ih (push ⟨[], pending⟩ b).done (push ⟨[], pending⟩ b).pending]
    simp

/-- A character that has begun becomes a segment in any case. -/
theorem finish_ne_nil (p : Pending) (bs : Bytes) : (bs.foldl push ⟨[], some p⟩).finish ≠ [] := by
  induction bs generalizing p with
  | nil => simp [finish]
  | cons b rest ih =>
    rw [List.foldl_cons, push]
    dsimp only
    split
    · split
      · rw [finish_foldl_push]
        simp
      · exact ih _
    · unfold first
      split <;> rw [finish_foldl_push] <;> simp

end Reader

theorem segments_nil : segments [] = [] := rfl

/-- An ASCII byte is a character, and the bytes after it are read as they would be alone. -/
theorem segments_cons_of_ascii {b : UInt8} (h : b < 0x80) (rest : Bytes) :
    segments (b :: rest) = .scalar (Char.ofNat b.toNat) :: segments rest := by
  have hpush : Reader.push Reader.start b = ⟨[.scalar (Char.ofNat b.toNat)], none⟩ := by
    simp [Reader.push, Reader.start, Reader.first, begin, h]
  unfold segments
  rw [List.foldl_cons, hpush, Reader.finish_foldl_push]
  rfl

/-- A character that has begun and will not be an ASCII one, whatever bytes end it. -/
def Pending.IsLong (p : Pending) : Prop :=
  0x80 ≤ p.low.toNat ∧ 0x80 ≤ (p.value * 64 + (p.low.toNat - 0x80)) * 64 ^ p.rest

/-- A byte above the ASCII range begins a long character, or nothing at all. -/
theorem begin_of_not_ascii {b : UInt8} (h : ¬ b < 0x80) :
    begin b = .inl (.illFormed [b]) ∨ ∃ p, begin b = .inr p ∧ p.IsLong := by
  have hge {bound : UInt8} (hbound : ¬ b < bound) : bound.toNat ≤ b.toNat := by
    rw [UInt8.lt_iff_toNat_lt] at hbound
    exact Nat.le_of_not_lt hbound
  unfold begin
  rw [if_neg h]
  by_cases hC2 : b < 0xC2
  · exact Or.inl (if_pos hC2)
  rw [if_neg hC2]
  have hbC2 := hge hC2
  by_cases hE0 : b < 0xE0
  · refine Or.inr ⟨_, if_pos hE0, ?_⟩
    simp [Pending.IsLong] at hbC2 ⊢
    omega
  rw [if_neg hE0]
  have hbE0 := hge hE0
  by_cases hF0 : b < 0xF0
  · refine Or.inr ⟨_, if_pos hF0, ?_⟩
    by_cases heq : b = 0xE0
    · subst heq
      exact ⟨by decide, by decide⟩
    · have hne : b.toNat ≠ 0xE0 := fun h => heq (UInt8.toNat_inj.mp h)
      simp [Pending.IsLong, heq] at hbE0 ⊢
      omega
  rw [if_neg hF0]
  have hbF0 := hge hF0
  by_cases hF5 : b < 0xF5
  · refine Or.inr ⟨_, if_pos hF5, ?_⟩
    by_cases heq : b = 0xF0
    · subst heq
      exact ⟨by decide, by decide⟩
    · have hne : b.toNat ≠ 0xF0 := fun h => heq (UInt8.toNat_inj.mp h)
      simp [Pending.IsLong, heq] at hbF0 ⊢
      omega
  · exact Or.inl (if_neg hF5)

theorem toNat_ofNat_of_long {n : Nat} (h : 0x80 ≤ n) :
    (Char.ofNat n).toNat = 0 ∨ 0x80 ≤ (Char.ofNat n).toNat := by
  by_cases hvalid : n.isValidChar
  · right
    have : (Char.ofNat n).toNat = n := by
      rw [Char.ofNat, dif_pos hvalid]
      rfl
    omega
  · left
    rw [Char.ofNat, dif_neg hvalid]
    rfl

/-- The character that a long one turns out to be is not in the ASCII range. -/
theorem head?_of_isLong {p : Pending} (hp : p.IsLong) {bs : Bytes} {c : Char}
    (h : (bs.foldl Reader.push ⟨[], some p⟩).finish.head? = some (.scalar c)) :
    c.toNat = 0 ∨ 0x80 ≤ c.toNat := by
  induction bs generalizing p with
  | nil => simp [Reader.finish] at h
  | cons b rest ih =>
    obtain ⟨hlow, hvalue⟩ := hp
    rw [List.foldl_cons, Reader.push] at h
    dsimp only at h
    split at h
    · next hbounds =>
      have hb : p.low.toNat ≤ b.toNat := UInt8.le_iff_toNat_le.mp hbounds.1
      have hmore : p.value * 64 + (p.low.toNat - 0x80) ≤ p.value * 64 + (b.toNat - 0x80) := by
        omega
      split at h
      · next hrest =>
        rw [Reader.finish_foldl_push] at h
        simp only [List.reverse_singleton, List.singleton_append, List.head?_cons, Option.some.injEq,
          Segment.scalar.injEq] at h
        rw [← h]
        refine toNat_ofNat_of_long ?_
        rw [hrest, pow_zero, mul_one] at hvalue
        omega
      · next n hrest =>
        refine ih ⟨Nat.le_refl _, ?_⟩ h
        rw [hrest, pow_succ'] at hvalue
        have := Nat.mul_le_mul_right (64 * 64 ^ n) hmore
        simp only [UInt8.reduceToNat, Nat.sub_self, Nat.add_zero]
        calc 0x80 ≤ (p.value * 64 + (p.low.toNat - 0x80)) * (64 * 64 ^ n) := hvalue
          _ ≤ (p.value * 64 + (b.toNat - 0x80)) * (64 * 64 ^ n) := this
          _ = (p.value * 64 + (b.toNat - 0x80)) * 64 * 64 ^ n := by ring
    · -- a byte that cannot continue the character leaves it ill-formed
      unfold Reader.first at h
      split at h <;> rw [Reader.finish_foldl_push] at h <;> simp at h

/-- What a byte string begins with tells whether its first byte is an ASCII one. -/
theorem head?_segments_of_not_ascii {b : UInt8} (hb : ¬ b < 0x80) {rest : Bytes} {c : Char}
    (h : (segments (b :: rest)).head? = some (.scalar c)) : c.toNat = 0 ∨ 0x80 ≤ c.toNat := by
  have hpush : Reader.push Reader.start b = Reader.first [] b := rfl
  unfold segments at h
  rw [List.foldl_cons, hpush, Reader.first] at h
  rcases begin_of_not_ascii hb with hbegin | ⟨p, hbegin, hp⟩
  · rw [hbegin] at h
    dsimp only at h
    rw [Reader.finish_foldl_push] at h
    simp at h
  · rw [hbegin] at h
    exact head?_of_isLong hp h

/-- Where the first segment is an ASCII character, its byte comes first. -/
theorem eq_cons_of_segments {bs : Bytes} {c : Char} {tail : List Segment} (h0 : c.toNat ≠ 0)
    (hc : c.toNat < 0x80) (h : segments bs = .scalar c :: tail) :
    ∃ rest, bs = UInt8.ofNat c.toNat :: rest ∧ segments rest = tail := by
  cases bs with
  | nil => cases h
  | cons b rest =>
    by_cases hb : b < 0x80
    · rw [segments_cons_of_ascii hb] at h
      simp only [List.cons.injEq, Segment.scalar.injEq] at h
      obtain ⟨rfl, htail⟩ := h
      have hvalid : b.toNat.isValidChar := Or.inl (by have := b.toNat_lt; omega)
      have hbyte : (Char.ofNat b.toNat).toNat = b.toNat := by
        rw [Char.ofNat, dif_pos hvalid]
        rfl
      refine ⟨rest, ?_, htail⟩
      rw [hbyte, UInt8.ofNat_toNat]
    · have hhead : (segments (b :: rest)).head? = some (.scalar c) := by rw [h, List.head?_cons]
      rcases head?_segments_of_not_ascii hb hhead with hzero | hlong
      · exact absurd hzero h0
      · omega

theorem segments_ne_nil {bs : Bytes} (h : bs ≠ []) : segments bs ≠ [] := by
  obtain ⟨b, rest, rfl⟩ := List.exists_cons_of_ne_nil h
  by_cases hb : b < 0x80
  · rw [segments_cons_of_ascii hb]
    simp
  · have hpush : Reader.push Reader.start b = Reader.first [] b := rfl
    unfold segments
    rw [List.foldl_cons, hpush, Reader.first]
    rcases begin_of_not_ascii hb with hbegin | ⟨p, hbegin, -⟩
    · rw [hbegin]
      dsimp only
      rw [Reader.finish_foldl_push]
      simp
    · rw [hbegin]
      exact Reader.finish_ne_nil p rest

/-- What is shown for a byte string begins with an ASCII character if its first byte encodes that. -/
theorem head?_decodeLossy_iff {bs : Bytes} {c : Char} (h0 : c.toNat ≠ 0) (hc : c.toNat < 0x80) :
    (decodeLossy bs).head? = some c ↔ bs.head? = some (UInt8.ofNat c.toNat) := by
  constructor
  · intro h
    rw [decodeLossy, List.head?_map, Option.map_eq_some_iff] at h
    obtain ⟨segment, hsegment, hshown⟩ := h
    obtain ⟨tail, htail⟩ := List.head?_eq_some_iff.mp hsegment
    cases segment with
    | scalar d =>
      obtain rfl : d = c := hshown
      obtain ⟨rest, rfl, -⟩ := eq_cons_of_segments h0 hc htail
      rfl
    | illFormed bytes =>
      -- the replacement character is no ASCII character
      have : replacement = c := hshown
      subst this
      exact absurd hc (by decide)
  · intro h
    obtain ⟨rest, rfl⟩ := List.head?_eq_some_iff.mp h
    have hbyte : (UInt8.ofNat c.toNat).toNat = c.toNat := by
      rw [UInt8.toNat_ofNat', Nat.mod_eq_of_lt (by omega)]
    have hb : UInt8.ofNat c.toNat < 0x80 := by
      rw [UInt8.lt_iff_toNat_lt, hbyte]
      exact hc
    rw [decodeLossy, segments_cons_of_ascii hb, hbyte, Char.ofNat_toNat]
    rfl

end GoldenHarness.Utf8

import GoldenHarness.Proofs.Text.Utf8

/-!
# Texts and their bytes

Reading a byte string as text loses nothing: the segments, put together again, are the bytes. So a
byte string is valid if and only if it is the bytes of some text, it is read back as that text, and an
ASCII character is shown where its byte is and nowhere else.
-/

namespace GoldenHarness.Utf8

/-! ## The bytes of a character -/

theorem toNat_val_ofNat {n : Nat} (h : n.isValidChar) : (Char.ofNat n).val.toNat = n := by
  rw [Char.ofNat, dif_pos h]
  rfl

theorem ofNat_eq {b : UInt8} {n : Nat} (h : n = b.toNat) : UInt8.ofNat n = b := by
  rw [h, UInt8.ofNat_toNat]

theorem ite_le_iff {b c x special usual : UInt8} :
    (if b = x then special else usual) ≤ c ↔
      (b.toNat = x.toNat → special.toNat ≤ c.toNat) ∧
        (b.toNat ≠ x.toNat → usual.toNat ≤ c.toNat) := by
  by_cases h : b = x
  · simp [h, UInt8.le_iff_toNat_le]
  · have hne : b.toNat ≠ x.toNat := fun heq => h (UInt8.toNat_inj.mp heq)
    simp [h, hne, UInt8.le_iff_toNat_le]

theorem le_ite_iff {b c x special usual : UInt8} :
    (c ≤ if b = x then special else usual) ↔
      (b.toNat = x.toNat → c.toNat ≤ special.toNat) ∧
        (b.toNat ≠ x.toNat → c.toNat ≤ usual.toNat) := by
  by_cases h : b = x
  · simp [h, UInt8.le_iff_toNat_le]
  · have hne : b.toNat ≠ x.toNat := fun heq => h (UInt8.toNat_inj.mp heq)
    simp [h, hne, UInt8.le_iff_toNat_le]

theorem encodeChar_two {b c : UInt8} (hb : 0xC2 ≤ b.toNat ∧ b.toNat < 0xE0)
    (hc : 0x80 ≤ c.toNat ∧ c.toNat ≤ 0xBF) :
    String.utf8EncodeChar (Char.ofNat ((b.toNat - 0xC0) * 64 + (c.toNat - 0x80))) = [b, c] := by
  unfold String.utf8EncodeChar
  rw [toNat_val_ofNat (Or.inl (by omega))]
  dsimp only
  rw [if_neg (by omega), if_pos (by omega), ofNat_eq (b := b) (by omega),
    ofNat_eq (b := c) (by omega)]

theorem encodeChar_three {b c d : UInt8} (hb : 0xE0 ≤ b.toNat ∧ b.toNat < 0xF0)
    (hlow : (if b = 0xE0 then 0xA0 else 0x80) ≤ c) (hhigh : c ≤ if b = 0xED then 0x9F else 0xBF)
    (hd : 0x80 ≤ d.toNat ∧ d.toNat ≤ 0xBF) :
    String.utf8EncodeChar
        (Char.ofNat (((b.toNat - 0xE0) * 64 + (c.toNat - 0x80)) * 64 + (d.toNat - 0x80))) =
      [b, c, d] := by
  have hlow := ite_le_iff.mp hlow
  have hhigh := le_ite_iff.mp hhigh
  simp only [UInt8.reduceToNat] at hlow hhigh
  unfold String.utf8EncodeChar
  rw [toNat_val_ofNat (by unfold Nat.isValidChar; omega)]
  dsimp only
  rw [if_neg (by omega), if_neg (by omega), if_pos (by omega), ofNat_eq (b := b) (by omega),
    ofNat_eq (b := c) (by omega), ofNat_eq (b := d) (by omega)]

theorem encodeChar_four {b c d e : UInt8} (hb : 0xF0 ≤ b.toNat ∧ b.toNat < 0xF5)
    (hlow : (if b = 0xF0 then 0x90 else 0x80) ≤ c) (hhigh : c ≤ if b = 0xF4 then 0x8F else 0xBF)
    (hd : 0x80 ≤ d.toNat ∧ d.toNat ≤ 0xBF) (he : 0x80 ≤ e.toNat ∧ e.toNat ≤ 0xBF) :
    String.utf8EncodeChar (Char.ofNat ((((b.toNat - 0xF0) * 64 + (c.toNat - 0x80)) * 64 +
        (d.toNat - 0x80)) * 64 + (e.toNat - 0x80))) =
      [b, c, d, e] := by
  have hlow := ite_le_iff.mp hlow
  have hhigh := le_ite_iff.mp hhigh
  simp only [UInt8.reduceToNat] at hlow hhigh
  unfold String.utf8EncodeChar
  rw [toNat_val_ofNat (by unfold Nat.isValidChar; omega)]
  dsimp only
  rw [if_neg (by omega), if_neg (by omega), if_neg (by omega), ofNat_eq (b := b) (by omega),
    ofNat_eq (b := c) (by omega), ofNat_eq (b := d) (by omega), ofNat_eq (b := e) (by omega)]

/-! ## Reading loses nothing -/

/-- The bytes that a segment was read from. -/
def Segment.bytes : Segment → Bytes
  | .scalar c => String.utf8EncodeChar c
  | .illFormed bytes => bytes

/-- Bytes that encode no character are none of the ASCII bytes. -/
def Segment.IsSound : Segment → Prop
  | .scalar _ => True
  | .illFormed bytes => ∀ b ∈ bytes, ¬ b < 0x80

/-- Whatever bytes complete a character of which `seen` were read, they encode it with those. -/
def Completes : (rest : Nat) → (seen : Bytes) → (value : Nat) → (low high : UInt8) → Prop
  | 0, seen, value, low, high => ∀ b, low ≤ b → b ≤ high →
    String.utf8EncodeChar (Char.ofNat (value * 64 + (b.toNat - 0x80))) = seen ++ [b]
  | rest + 1, seen, value, low, high => ∀ b, low ≤ b → b ≤ high →
    Completes rest (seen ++ [b]) (value * 64 + (b.toNat - 0x80)) 0x80 0xBF

/-- A pending character that can only become the one its bytes encode. -/
structure Pending.IsSound (p : Pending) : Prop where
  /-- None of the bytes is an ASCII byte. -/
  seen : ∀ b ∈ p.seen, ¬ b < 0x80
  /-- The next byte is no ASCII byte either. -/
  low : 0x80 ≤ p.low
  /-- The bits gathered are those of the bytes. -/
  completes : Completes p.rest p.seen p.value p.low p.high

theorem isSound_of_begin {b : UInt8} {p : Pending} (h : begin b = .inr p) :
    p.IsSound ∧ p.seen = [b] := by
  have hbound {c : UInt8} (hlow : 0x80 ≤ c) (hhigh : c ≤ 0xBF) : 0x80 ≤ c.toNat ∧ c.toNat ≤ 0xBF :=
    ⟨UInt8.le_iff_toNat_le.mp hlow, UInt8.le_iff_toNat_le.mp hhigh⟩
  -- one case for each length; bytes below 0xC2 and above 0xF4 begin no longer character
  unfold begin at h
  split at h
  · cases h
  next hascii =>
  have hseen : ∀ c ∈ [b], ¬ c < 0x80 := by simpa using hascii
  split at h
  · cases h
  next hC2 =>
  split at h
  · next hE0 =>
    cases h
    refine ⟨⟨hseen, UInt8.le_refl _, fun c hlow hhigh => ?_⟩, rfl⟩
    rw [UInt8.lt_iff_toNat_lt] at hC2 hE0
    exact encodeChar_two ⟨Nat.le_of_not_lt hC2, hE0⟩ (hbound hlow hhigh)
  next hE0 =>
  split at h
  · next hF0 =>
    cases h
    refine ⟨⟨hseen, ?_, fun c hlow hhigh d hlow' hhigh' => ?_⟩, rfl⟩
    · dsimp only
      split <;> decide
    rw [UInt8.lt_iff_toNat_lt] at hE0 hF0
    exact encodeChar_three ⟨Nat.le_of_not_lt hE0, hF0⟩ hlow hhigh (hbound hlow' hhigh')
  next hF0 =>
  split at h
  · next hF5 =>
    cases h
    refine ⟨⟨hseen, ?_, fun c hlow hhigh d hlow' hhigh' e hlow'' hhigh'' => ?_⟩, rfl⟩
    · dsimp only
      split <;> decide
    rw [UInt8.lt_iff_toNat_lt] at hF0 hF5
    exact encodeChar_four ⟨Nat.le_of_not_lt hF0, hF5⟩ hlow hhigh (hbound hlow' hhigh')
      (hbound hlow'' hhigh'')
  · cases h

theorem isSound_of_begin_segment {b : UInt8} {s : Segment} (h : begin b = .inl s) :
    s.IsSound ∧ s.bytes = [b] := by
  have hill (hascii : ¬ b < 0x80) (hs : Segment.illFormed [b] = s) : s.IsSound ∧ s.bytes = [b] := by
    subst hs
    exact ⟨by simpa [Segment.IsSound] using hascii, rfl⟩
  unfold begin at h
  split at h
  · next hascii =>
    cases h
    refine ⟨trivial, ?_⟩
    rw [UInt8.lt_iff_toNat_lt] at hascii
    have hlt : b.toNat < 0x80 := hascii
    have hval := toNat_val_ofNat (n := b.toNat) (Or.inl (by omega))
    unfold Segment.bytes String.utf8EncodeChar
    dsimp only
    rw [hval, if_pos (by omega), UInt8.ofNat_toNat]
  next hascii =>
  split at h
  · exact hill hascii (Sum.inl.inj h)
  split at h
  · cases h
  split at h
  · cases h
  split at h
  · cases h
  · exact hill hascii (Sum.inl.inj h)

namespace Reader

/-- The bytes that a reader has read. -/
def bytes (r : Reader) : Bytes :=
  r.done.reverse.flatMap Segment.bytes ++ r.pending.elim [] Pending.seen

/-- What a reader has made of its bytes is sound. -/
structure IsSound (r : Reader) : Prop where
  /-- So are the segments. -/
  done : ∀ s ∈ r.done, s.IsSound
  /-- So is the pending character. -/
  pending : ∀ p ∈ r.pending, p.IsSound

theorem bytes_first (done : List Segment) (b : UInt8) :
    (first done b).bytes = done.reverse.flatMap Segment.bytes ++ [b] := by
  unfold first
  split
  · next s hs => simp [bytes, (isSound_of_begin_segment hs).2]
  · next p hp => simp [bytes, (isSound_of_begin hp).2]

theorem isSound_first {done : List Segment} (h : ∀ s ∈ done, s.IsSound) (b : UInt8) :
    (first done b).IsSound := by
  unfold first
  split
  · next s hs => exact ⟨List.forall_mem_cons.mpr ⟨(isSound_of_begin_segment hs).1, h⟩, nofun⟩
  · next p hp =>
    refine ⟨h, fun q hq => ?_⟩
    cases hq
    exact (isSound_of_begin hp).1

theorem push_sound {r : Reader} (h : r.IsSound) (b : UInt8) :
    (r.push b).IsSound ∧ (r.push b).bytes = r.bytes ++ [b] := by
  obtain ⟨done, pending⟩ := r
  obtain ⟨hdone, hpending⟩ := h
  cases pending with
  | none =>
    refine ⟨isSound_first hdone b, ?_⟩
    show (first done b).bytes = _
    rw [bytes_first]
    simp [bytes]
  | some p =>
    obtain ⟨hseen, hlow, hcompletes⟩ := hpending p rfl
    unfold push
    dsimp only
    split
    · -- `b` goes on with the pending character, and completes it or not
      next hbounds =>
      have hhigh : ¬ b < 0x80 := UInt8.not_lt.mpr (UInt8.le_trans hlow hbounds.1)
      split
      · next hrest =>
        rw [hrest] at hcompletes
        refine ⟨⟨List.forall_mem_cons.mpr ⟨trivial, hdone⟩, nofun⟩, ?_⟩
        simp [bytes, Segment.bytes, hcompletes b hbounds.1 hbounds.2]
      · next rest hrest =>
        rw [hrest] at hcompletes
        refine ⟨⟨hdone, fun q hq => ?_⟩, by simp [bytes]⟩
        cases hq
        refine ⟨?_, UInt8.le_refl _, hcompletes b hbounds.1 hbounds.2⟩
        rintro c hc
        rcases List.mem_append.mp hc with hc | hc
        · exact hseen c hc
        · rwa [List.mem_singleton.mp hc]
    · -- the bytes seen before are a segment of their own, and `b` begins anew
      have hclosed : Segment.IsSound (.illFormed p.seen) := hseen
      refine ⟨isSound_first (List.forall_mem_cons.mpr ⟨hclosed, hdone⟩) b, ?_⟩
      rw [bytes_first]
      simp [bytes, Segment.bytes]

theorem foldl_push_sound {r : Reader} (h : r.IsSound) (bs : Bytes) :
    (bs.foldl push r).IsSound ∧ (bs.foldl push r).bytes = r.bytes ++ bs := by
  induction bs generalizing r with
  | nil => exact ⟨h, (List.append_nil _).symm⟩
  | cons b rest ih =>
    obtain ⟨hpush, hbytes⟩ := push_sound h b
    obtain ⟨hrest, heq⟩ := ih hpush
    refine ⟨hrest, ?_⟩
    rw [List.foldl_cons, heq, hbytes, List.append_assoc, List.singleton_append]

theorem finish_sound {r : Reader} (h : r.IsSound) :
    (∀ s ∈ r.finish, s.IsSound) ∧ r.finish.flatMap Segment.bytes = r.bytes := by
  obtain ⟨done, pending⟩ := r
  obtain ⟨hdone, hpending⟩ := h
  cases pending with
  | none => exact ⟨fun s hs => hdone s (List.mem_reverse.mp hs), by simp [finish, bytes]⟩
  | some p =>
    refine ⟨fun s hs => ?_, by simp [finish, bytes, Segment.bytes]⟩
    rcases List.mem_cons.mp (List.mem_reverse.mp hs) with rfl | hs
    · exact (hpending p rfl).seen
    · exact hdone s hs

end Reader

/-- The segments of a byte string, put together again, are the byte string, and none that encodes
nothing has an ASCII byte in it. -/
theorem segments_sound (bs : Bytes) :
    (∀ s ∈ segments bs, s.IsSound) ∧ (segments bs).flatMap Segment.bytes = bs := by
  have hstart : Reader.start.IsSound := ⟨nofun, nofun⟩
  obtain ⟨hread, hbytes⟩ := Reader.foldl_push_sound hstart bs
  obtain ⟨hsound, hfinish⟩ := Reader.finish_sound hread
  exact ⟨hsound, hfinish.trans hbytes⟩

/-! ## The bytes of a text -/

section Read

variable {b c d e : UInt8}

theorem begin_of_two (h : 0xC2 ≤ b.toNat ∧ b.toNat < 0xE0) :
    begin b = .inr ⟨[b], b.toNat - 0xC0, 0x80, 0xBF, 0⟩ := by
  simp only [begin, UInt8.lt_iff_toNat_lt, UInt8.reduceToNat]
  rw [if_neg (by omega), if_neg (by omega), if_pos h.2]

theorem begin_of_three (h : 0xE0 ≤ b.toNat ∧ b.toNat < 0xF0) :
    begin b = .inr ⟨[b], b.toNat - 0xE0, if b = 0xE0 then 0xA0 else 0x80,
      if b = 0xED then 0x9F else 0xBF, 1⟩ := by
  simp only [begin, UInt8.lt_iff_toNat_lt, UInt8.reduceToNat]
  rw [if_neg (by omega), if_neg (by omega), if_neg (by omega), if_pos h.2]

theorem begin_of_four (h : 0xF0 ≤ b.toNat ∧ b.toNat < 0xF5) :
    begin b = .inr ⟨[b], b.toNat - 0xF0, if b = 0xF0 then 0x90 else 0x80,
      if b = 0xF4 then 0x8F else 0xBF, 2⟩ := by
  simp only [begin, UInt8.lt_iff_toNat_lt, UInt8.reduceToNat]
  rw [if_neg (by omega), if_neg (by omega), if_neg (by omega), if_neg (by omega), if_pos h.2]

theorem push_of_complete {done : List Segment} {p : Pending} (hrest : p.rest = 0)
    (hbounds : p.low ≤ b ∧ b ≤ p.high) :
    Reader.push ⟨done, some p⟩ b =
      ⟨.scalar (Char.ofNat (p.value * 64 + (b.toNat - 0x80))) :: done, none⟩ := by
  simp only [Reader.push, if_pos hbounds, hrest]

theorem push_of_pending {done : List Segment} {p : Pending} {rest : Nat} (hrest : p.rest = rest + 1)
    (hbounds : p.low ≤ b ∧ b ≤ p.high) :
    Reader.push ⟨done, some p⟩ b =
      ⟨done, some ⟨p.seen ++ [b], p.value * 64 + (b.toNat - 0x80), 0x80, 0xBF, rest⟩⟩ := by
  simp only [Reader.push, if_pos hbounds, hrest]

theorem push_start (b : UInt8) : Reader.push Reader.start b = Reader.first [] b := rfl

theorem continues_of_toNat {n : Nat} (h : b.toNat = n % 64 + 128) : 0x80 ≤ b ∧ b ≤ 0xBF := by
  simp only [UInt8.le_iff_toNat_le, UInt8.reduceToNat]
  omega

variable {v : Nat}

theorem segments_of_one (hb : b.toNat = v) (h : v ≤ 0x7F) (rest : Bytes) :
    segments (b :: rest) = .scalar (Char.ofNat v) :: segments rest := by
  have hascii : b < 0x80 := by
    rw [UInt8.lt_iff_toNat_lt, hb]
    exact Nat.lt_succ_of_le h
  rw [segments_cons_of_ascii hascii, hb]

theorem segments_of_two (hb : b.toNat = v / 64 % 32 + 192) (hc : c.toNat = v % 64 + 128)
    (hlow : 0x7F < v) (hhigh : v ≤ 0x7FF) (rest : Bytes) :
    segments (b :: c :: rest) = .scalar (Char.ofNat v) :: segments rest := by
  have hvalue : (b.toNat - 0xC0) * 64 + (c.toNat - 0x80) = v := by omega
  rw [segments, List.foldl_cons, push_start, Reader.first, begin_of_two (by omega), List.foldl_cons]
  dsimp only
  rw [push_of_complete rfl (continues_of_toNat hc), Reader.finish_foldl_push, hvalue]
  rfl

theorem segments_of_three (hb : b.toNat = v / 4096 % 16 + 224) (hc : c.toNat = v / 64 % 64 + 128)
    (hd : d.toNat = v % 64 + 128) (hlow : 0x7FF < v) (hhigh : v ≤ 0xFFFF) (hvalid : v.isValidChar)
    (rest : Bytes) :
    segments (b :: c :: d :: rest) = .scalar (Char.ofNat v) :: segments rest := by
  have hvalue : ((b.toNat - 0xE0) * 64 + (c.toNat - 0x80)) * 64 + (d.toNat - 0x80) = v := by omega
  -- the second byte is within its bounds, since the form is not overlong and `v` is no surrogate
  have hsecond : (if b = 0xE0 then 0xA0 else 0x80) ≤ c ∧ c ≤ if b = 0xED then 0x9F else 0xBF := by
    rw [ite_le_iff, le_ite_iff]
    simp only [UInt8.reduceToNat]
    unfold Nat.isValidChar at hvalid
    omega
  rw [segments, List.foldl_cons, push_start, Reader.first, begin_of_three (by omega),
    List.foldl_cons]
  dsimp only
  rw [push_of_pending rfl hsecond, List.foldl_cons, push_of_complete rfl (continues_of_toNat hd),
    Reader.finish_foldl_push, hvalue]
  rfl

theorem segments_of_four (hb : b.toNat = v / 262144 % 8 + 240) (hc : c.toNat = v / 4096 % 64 + 128)
    (hd : d.toNat = v / 64 % 64 + 128) (he : e.toNat = v % 64 + 128) (hlow : 0xFFFF < v)
    (hvalid : v.isValidChar) (rest : Bytes) :
    segments (b :: c :: d :: e :: rest) = .scalar (Char.ofNat v) :: segments rest := by
  unfold Nat.isValidChar at hvalid
  have hvalue : (((b.toNat - 0xF0) * 64 + (c.toNat - 0x80)) * 64 + (d.toNat - 0x80)) * 64 +
      (e.toNat - 0x80) = v := by omega
  -- the second byte is within its bounds, since the form is not overlong and `v` not too great
  have hsecond : (if b = 0xF0 then 0x90 else 0x80) ≤ c ∧ c ≤ if b = 0xF4 then 0x8F else 0xBF := by
    rw [ite_le_iff, le_ite_iff]
    simp only [UInt8.reduceToNat]
    omega
  rw [segments, List.foldl_cons, push_start, Reader.first, begin_of_four (by omega),
    List.foldl_cons]
  dsimp only
  rw [push_of_pending rfl hsecond, List.foldl_cons, push_of_pending rfl (continues_of_toNat hd),
    List.foldl_cons, push_of_complete rfl (continues_of_toNat he), Reader.finish_foldl_push, hvalue]
  rfl

end Read

theorem toNat_ofNat {n : Nat} (h : n < 256) : (UInt8.ofNat n).toNat = n := by
  rw [UInt8.toNat_ofNat', Nat.mod_eq_of_lt h]

/-- The bytes of a character are read as that character, whatever follows them. -/
theorem segments_encodeChar_append (c : Char) (rest : Bytes) :
    segments (String.utf8EncodeChar c ++ rest) = .scalar c :: segments rest := by
  have hvalid : c.val.toNat.isValidChar := c.valid
  have hchar : Char.ofNat c.val.toNat = c := Char.ofNat_toNat c
  unfold String.utf8EncodeChar
  generalize c.val.toNat = v at hvalid hchar
  subst hchar
  dsimp only
  split
  · next h => exact segments_of_one (toNat_ofNat (by omega)) h rest
  split
  · next h₁ h₂ =>
    exact segments_of_two (toNat_ofNat (by omega)) (toNat_ofNat (by omega)) (by omega) h₂ rest
  split
  · next h₁ h₂ =>
    exact segments_of_three (toNat_ofNat (by omega)) (toNat_ofNat (by omega))
      (toNat_ofNat (by omega)) (by omega) h₂ hvalid rest
  · next h =>
    exact segments_of_four (toNat_ofNat (by omega)) (toNat_ofNat (by omega))
      (toNat_ofNat (by omega)) (toNat_ofNat (by omega)) (by omega) hvalid rest

/-- The bytes of a text are read as its characters. -/
theorem segments_encode (text : List Char) : segments (encode text) = text.map .scalar := by
  induction text with
  | nil => rfl
  | cons c text ih =>
    show segments (String.utf8EncodeChar c ++ encode text) = _
    rw [segments_encodeChar_append, ih, List.map_cons]

/-- What is shown for the bytes of a text is the text. -/
theorem decodeLossy_encode (text : List Char) : decodeLossy (encode text) = text := by
  rw [decodeLossy, segments_encode, List.map_map]
  exact List.map_id text

theorem mapM_scalar?_eq_some_iff {segs : List Segment} {text : List Char} :
    segs.mapM Segment.scalar? = some text ↔ segs = text.map .scalar := by
  induction segs generalizing text with
  | nil => cases text <;> simp
  | cons s segs ih =>
    cases s with
    | scalar c =>
      cases text <;> simp [List.mapM_cons, Segment.scalar?, Option.bind_eq_some_iff, ih, and_comm]
    | illFormed bytes => cases text <;> simp [List.mapM_cons, Segment.scalar?]

/-- Bytes encode a text throughout if and only if they are the bytes of that text. -/
theorem decode?_eq_some_iff {bs : Bytes} {text : List Char} :
    decode? bs = some text ↔ bs = encode text := by
  rw [decode?, mapM_scalar?_eq_some_iff]
  constructor
  · intro h
    rw [← (segments_sound bs).2, h, List.flatMap_map]
    rfl
  · rintro rfl
    exact segments_encode text

theorem encode_append (text more : List Char) : encode (text ++ more) = encode text ++ encode more :=
  List.flatMap_append

theorem encode_eq_nil_iff {text : List Char} : encode text = [] ↔ text = [] := by
  cases text with
  | nil => simp [encode]
  | cons c text => simp [encode, String.utf8EncodeChar_ne_nil]

/-! ## ASCII characters -/

variable {b : UInt8}

theorem encodeChar_of_ascii (hb : b < 0x80) : String.utf8EncodeChar (Char.ofNat b.toNat) = [b] := by
  have hlt : b.toNat < 0x80 := UInt8.lt_iff_toNat_lt.mp hb
  have hval : (Char.ofNat b.toNat).val.toNat = b.toNat := toNat_val_ofNat (Or.inl (by omega))
  unfold String.utf8EncodeChar
  dsimp only
  rw [hval, if_pos (by omega), UInt8.ofNat_toNat]

theorem not_ascii_of_mem_encodeChar {c : Char} (hc : 0x7F < c.val.toNat) :
    ∀ b ∈ String.utf8EncodeChar c, ¬ b < 0x80 := by
  have hhigh {n : Nat} (hn : 0x80 ≤ n ∧ n < 256) : ¬ UInt8.ofNat n < 0x80 := by
    rw [UInt8.lt_iff_toNat_lt, toNat_ofNat hn.2]
    exact Nat.not_lt.mpr hn.1
  unfold String.utf8EncodeChar
  dsimp only
  split
  · next h => exact absurd h (Nat.not_le.mpr hc)
  split
  · simp only [List.forall_mem_cons]
    exact ⟨hhigh (by omega), hhigh (by omega), nofun⟩
  split
  · simp only [List.forall_mem_cons]
    exact ⟨hhigh (by omega), hhigh (by omega), hhigh (by omega), nofun⟩
  · simp only [List.forall_mem_cons]
    exact ⟨hhigh (by omega), hhigh (by omega), hhigh (by omega), hhigh (by omega), nofun⟩

theorem mem_encodeChar_iff (hb : b < 0x80) {c : Char} :
    b ∈ String.utf8EncodeChar c ↔ c = Char.ofNat b.toNat := by
  have hlt : b.toNat < 0x80 := UInt8.lt_iff_toNat_lt.mp hb
  have hone {d : Char} (hd : d.val.toNat ≤ 0x7F) :
      String.utf8EncodeChar d = [UInt8.ofNat d.val.toNat] := if_pos hd
  constructor
  · intro h
    have hc : c.val.toNat ≤ 0x7F :=
      Nat.le_of_not_lt fun hlong => not_ascii_of_mem_encodeChar hlong b h hb
    rw [hone hc, List.mem_singleton] at h
    rw [h, toNat_ofNat (by omega)]
    exact (Char.ofNat_toNat c).symm
  · rintro rfl
    rw [encodeChar_of_ascii hb]
    exact List.mem_singleton_self b

/-- An ASCII character is in a text if and only if its byte is among the bytes. -/
theorem mem_encode_iff (hb : b < 0x80) {text : List Char} :
    b ∈ encode text ↔ Char.ofNat b.toNat ∈ text := by
  simp [encode, mem_encodeChar_iff hb]

/-- An ASCII character ends a text if and only if its byte ends the bytes. -/
theorem getLast?_encode_iff (hb : b < 0x80) {text : List Char} :
    (encode text).getLast? = some b ↔ text.getLast? = some (Char.ofNat b.toNat) := by
  rcases List.eq_nil_or_concat text with rfl | ⟨init, c, htext⟩
  · simp [encode]
  rw [List.concat_eq_append] at htext
  subst htext
  -- the last byte is one of the last character's, which has at least one
  have hlast : (encode (init ++ [c])).getLast? = (String.utf8EncodeChar c).getLast? := by
    have hbytes : encode [c] = String.utf8EncodeChar c := List.append_nil _
    rw [encode_append, hbytes, List.getLast?_append,
      List.getLast?_eq_some_getLast String.utf8EncodeChar_ne_nil, Option.some_or]
  rw [hlast, List.getLast?_concat, Option.some_inj]
  constructor
  · intro h
    exact (mem_encodeChar_iff hb).mp (List.mem_of_getLast? h)
  · rintro rfl
    rw [encodeChar_of_ascii hb, List.getLast?_singleton]

/-- An ASCII character is shown for bytes if and only if its byte is among them. -/
theorem mem_decodeLossy_iff (hb : b < 0x80) {bs : Bytes} :
    Char.ofNat b.toNat ∈ decodeLossy bs ↔ b ∈ bs := by
  have hlt : b.toNat < 0x80 := UInt8.lt_iff_toNat_lt.mp hb
  obtain ⟨hsound, hbytes⟩ := segments_sound bs
  have hsegment (s : Segment) (hs : s ∈ segments bs) :
      s.shown = Char.ofNat b.toNat ↔ b ∈ s.bytes := by
    cases s with
    | scalar c => exact (mem_encodeChar_iff hb).symm
    | illFormed bytes =>
      refine iff_of_false (fun h => ?_) fun hmem => hsound _ hs b hmem hb
      -- the replacement character is no ASCII character
      have := congrArg (fun c => c.val.toNat) h
      rw [toNat_val_ofNat (Or.inl (by omega))] at this
      have : (0xFFFD : Nat) = b.toNat := this
      omega
  conv_rhs => rw [← hbytes]
  rw [decodeLossy, List.mem_map, List.mem_flatMap]
  exact exists_congr fun s => and_congr_right fun hs => hsegment s hs

end GoldenHarness.Utf8

namespace GoldenHarness.Bytes

theorem ofString_append (s t : String) : ofString (s ++ t) = ofString s ++ ofString t := by
  rw [ofString, String.toList_append, Utf8.encode_append]
  rfl

end GoldenHarness.Bytes

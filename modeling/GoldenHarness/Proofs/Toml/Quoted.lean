import GoldenHarness.Toml.Lexeme
import Mathlib.Tactic.ByContra

/-!
# Strings in double quotes

Every text can be written as a string of one line: quotes and backslashes behind a backslash, and
control characters by their code points. The reader of strings undoes that character by character, so
each text is read back as it was.
-/

namespace GoldenHarness.Toml

/-- How the characters of a text are written between double quotes. -/
structure Escaping where
  /-- Whether a character is written by its code point. -/
  isEscaped : Char → Bool
  /-- A hexadecimal digit. -/
  digit : Nat → Char
  /-- Characters that may not stand in a string are escaped. -/
  isEscaped_of_not_isPlain : ∀ c, ¬ isPlain c → isEscaped c
  /-- Four digits are enough for what is escaped. -/
  toNat_lt_of_isEscaped : ∀ c, isEscaped c → c.toNat < 0x10000
  /-- The digits are read as what they stand for. -/
  hexDigit?_digit : ∀ n < 16, hexDigit? (digit n) = some n

/-- Whether a character is a control character. -/
def isControl (c : Char) : Bool := c < ' ' ∨ ('\x7f' ≤ c ∧ c ≤ '\u009f')

theorem isControl_of_not_isPlain {c : Char} (h : ¬ isPlain c) : isControl c := by
  simp only [isPlain, decide_eq_true_eq, not_or, not_and, not_not] at h
  obtain ⟨-, hplain⟩ := h
  rw [isControl, decide_eq_true_eq]
  by_cases hspace : ' ' ≤ c
  · rw [hplain hspace]
    decide
  · exact Or.inl (Char.not_le.mp hspace)

theorem toNat_lt_of_isControl {c : Char} (h : isControl c) : c.toNat < 0x10000 := by
  rw [isControl, decide_eq_true_eq] at h
  rcases h with hc | ⟨-, hc⟩
  · have hlt : c.toNat < (' ').toNat := hc
    exact Nat.lt_trans hlt (by decide)
  · have hle : c.toNat ≤ ('\u009f').toNat := hc
    exact Nat.lt_of_le_of_lt hle (by decide)

namespace Escaping

/-- Control characters are escaped, with capital digits. -/
def standard : Escaping where
  isEscaped := isControl
  digit n := n.digitChar.toUpper
  isEscaped_of_not_isPlain _ := isControl_of_not_isPlain
  toNat_lt_of_isEscaped _ := toNat_lt_of_isControl
  hexDigit?_digit := by decide

variable (e : Escaping)

/-- The four digits of a code point. -/
def digits (n : Nat) : List Char :=
  [e.digit (n / 0x1000 % 16), e.digit (n / 0x100 % 16), e.digit (n / 16 % 16), e.digit (n % 16)]

/-- How a character is written. -/
def escape (c : Char) : List Char :=
  if c = '"' ∨ c = '\\' then ['\\', c]
  else if e.isEscaped c then '\\' :: 'u' :: e.digits c.toNat
  else [c]

/-- How a text is written between quotes. -/
def quoted (text : List Char) : List Char := '"' :: text.flatMap e.escape ++ ['"']

theorem scalar?_toNat (c : Char) : scalar? c.toNat = some c := by
  have hvalid : c.toNat.isValidChar := c.valid
  rw [scalar?, if_pos hvalid, Char.ofNat_toNat]

theorem basicFrom_plain_cons (held : List Char) (c : Char) (rest : List Char) :
    basicFrom held .plain (c :: rest) =
      if c = '"' then some (held.reverse, rest)
      else if c = '\\' then basicFrom held .escape rest
      else if isPlain c then basicFrom (c :: held) .plain rest
      else none := rfl

theorem basicFrom_escape_cons (held : List Char) (c : Char) (rest : List Char) :
    basicFrom held .escape (c :: rest) =
      match afterBackslash held c with
      | some (held, mode) => basicFrom held mode rest
      | none => none := rfl

theorem basicFrom_digits_cons (held : List Char) (missing value : Nat) (c : Char)
    (rest : List Char) :
    basicFrom held (.digits missing value) (c :: rest) =
      match afterDigit held missing value c with
      | some (held, mode) => basicFrom held mode rest
      | none => none := rfl

/-- The digits of a code point are read as its character. -/
theorem basicFrom_digits (held : List Char) {c : Char} (h : c.toNat < 0x10000) (rest : List Char) :
    basicFrom held (.digits 3 0) (e.digits c.toNat ++ rest) = basicFrom (c :: held) .plain rest := by
  have hdigit (n : Nat) : hexDigit? (e.digit (n % 16)) = some (n % 16) :=
    e.hexDigit?_digit _ (Nat.mod_lt _ (by decide))
  have hvalue : (((0 * 16 + c.toNat / 0x1000 % 16) * 16 + c.toNat / 0x100 % 16) * 16 +
      c.toNat / 16 % 16) * 16 + c.toNat % 16 = c.toNat := by omega
  simp only [digits, List.cons_append, List.nil_append, basicFrom_digits_cons, afterDigit, hdigit,
    Option.bind_eq_bind, Option.bind_some, Option.pure_def]
  rw [hvalue, scalar?_toNat]
  rfl

/-- A character that was written is read back. -/
theorem basicFrom_escape (held : List Char) (c : Char) (rest : List Char) :
    basicFrom held .plain (e.escape c ++ rest) = basicFrom (c :: held) .plain rest := by
  unfold escape
  split
  · next hspecial =>
    have hescape : escape? c = some c := by
      rcases hspecial with rfl | rfl <;> rfl
    have hback : afterBackslash held c = some (c :: held, .plain) := by
      simp only [afterBackslash, hescape]
    rw [List.cons_append, List.singleton_append, basicFrom_plain_cons, if_neg (by decide), if_pos rfl,
      basicFrom_escape_cons, hback]
  next hspecial =>
  obtain ⟨hquote, hbackslash⟩ := not_or.mp hspecial
  split
  · next hescaped =>
    have hcode : afterBackslash held 'u' = some (held, .digits 3 0) := rfl
    rw [List.cons_append, List.cons_append, basicFrom_plain_cons, if_neg (by decide), if_pos rfl,
      basicFrom_escape_cons, hcode]
    exact e.basicFrom_digits held (e.toNat_lt_of_isEscaped c hescaped) rest
  · next hescaped =>
    have hplain : isPlain c := by
      by_contra hnot
      exact hescaped (e.isEscaped_of_not_isPlain c hnot)
    rw [List.singleton_append, basicFrom_plain_cons, if_neg hquote, if_neg hbackslash, if_pos hplain]

theorem basicFrom_text (held text rest : List Char) :
    basicFrom held .plain (text.flatMap e.escape ++ '"' :: rest) = some (held.reverse ++ text, rest) := by
  induction text generalizing held with
  | nil => rw [List.flatMap_nil, List.nil_append, basicFrom_plain_cons, if_pos rfl, List.append_nil]
  | cons c text ih =>
    rw [List.flatMap_cons, List.append_assoc, basicFrom_escape, ih, List.reverse_cons,
      List.append_assoc, List.singleton_append]

/-- What a character is written as does not begin with a quote. -/
theorem head?_escape_ne (c : Char) (rest : List Char) : (e.escape c ++ rest).head? ≠ some '"' := by
  unfold escape
  split
  · exact nofun
  next hspecial =>
  split
  · exact nofun
  · intro hhead
    exact hspecial (Or.inl (Option.some.inj hhead))

/-- **A text in quotes is read back**, whatever follows but another quote. -/
theorem string?_quoted (text : List Char) {rest : List Char} (h : rest.head? ≠ some '"') :
    string? (e.quoted text ++ rest) = some (text, rest) := by
  have htext := e.basicFrom_text [] text rest
  rw [quoted, List.append_assoc, List.cons_append, List.singleton_append]
  -- three quotes would begin a string of many lines
  unfold string?
  split
  · next rest' hquotes =>
    have hthree := (List.cons.inj hquotes).2
    cases text with
    | nil =>
      rw [List.flatMap_nil, List.nil_append] at hthree
      exact absurd (congrArg List.head? (List.cons.inj hthree).2) h
    | cons c text =>
      rw [List.flatMap_cons, List.append_assoc] at hthree
      exact absurd (congrArg List.head? hthree) (e.head?_escape_ne c _)
  · next hquotes => cases hquotes
  · next hquotes =>
    cases hquotes
    exact htext
  · next hquotes => cases hquotes
  · next hquote _ => exact (hquote _ rfl).elim

end Escaping

end GoldenHarness.Toml

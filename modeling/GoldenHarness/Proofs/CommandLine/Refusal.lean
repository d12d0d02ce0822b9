import GoldenHarness.CommandLine.Message
import GoldenHarness.Proofs.CommandLine.Words
import GoldenHarness.Proofs.Text.Printable

/-!
# Refused command lines

Reading ends at the first word that cannot be read. If that word is an option that there is not, the
message names what of it is unknown, and nothing else. A word too many that begins with a dash is told
in the same way, although it is no option. All other refusals are told at length.
-/

namespace GoldenHarness.CommandLine

namespace Progress

variable {p q : Progress} {w : Bytes} {shown : String}

/-! ## What never is an unknown option -/

theorem take_ne_unknown (p : Progress) (o : ValueOption) (v : Bytes) :
    p.take o v ≠ .error (.invalid (.unknownOption shown)) := by
  unfold take
  split
  · simp
  split
  · simp
  · simp

theorem settle_ne_unknown (p : Progress) :
    p.settle ≠ .error (.invalid (.unknownOption shown)) := by
  unfold settle
  split
  · simp
  · simp
  · exact take_ne_unknown _ _ _

theorem flag_ne_unknown (p : Progress) (f : Flag) :
    p.flag f ≠ .error (.invalid (.unknownOption shown)) := by
  intro h
  rw [flag] at h
  rcases bind_eq_error.mp h with hsettle | ⟨settled, -, htaken⟩
  · exact settle_ne_unknown p hsettle
  cases f with
  | help => cases htaken
  | verbose => cases htaken
  | generate =>
    dsimp only at htaken
    split at htaken
    · cases htaken
    · cases htaken

theorem fromEnvironment_ne_unknown (env : Environment) (p : Progress) (o : ValueOption) :
    fromEnvironment env p o ≠ .error (.invalid (.unknownOption shown)) := by
  unfold fromEnvironment
  split
  · exact take_ne_unknown _ _ _
  · simp

/-! ## Unknown options -/

/-- A word that is an option which there is not, with what is said of it: the first letter of a cluster
that names no flag, where the letters before it can be taken up; all that is left of a cluster from
bytes on that are no letter; or the name of a long option. -/
inductive IsUnknown (p : Progress) : Bytes → String → Prop where
  /-- A cluster with an unknown letter. -/
  | letter {tail : Bytes} {flags : List Flag} {c : Char} {rest : List Utf8.Segment}
      (hdash : tail.head? ≠ some dash)
      (htail : Utf8.segments tail = flags.map (fun f => .scalar f.letter) ++ .scalar c :: rest)
      (hc : ∀ f : Flag, f.letter ≠ c) {taken : Progress}
      (hflags : flags.foldlM flag p = .ok taken) :
      IsUnknown p (dash :: tail) (String.ofList ['-', c])
  /-- A cluster that is no text. -/
  | bytes {tail : Bytes} {flags : List Flag} {bytes : Bytes} {rest : List Utf8.Segment}
      (hdash : tail.head? ≠ some dash)
      (htail : Utf8.segments tail = flags.map (fun f => .scalar f.letter) ++ .illFormed bytes :: rest)
      {taken : Progress} (hflags : flags.foldlM flag p = .ok taken) :
      IsUnknown p (dash :: tail)
        (String.ofList ('-' :: (.illFormed bytes :: rest).map Utf8.Segment.shown))
  /-- A long option with an unknown name, which ends before an equals sign. -/
  | long {rest : Bytes} (hrest : rest ≠ [])
      (ho : ∀ o : ValueOption, (splitValue rest).1 ≠ Bytes.ofString o.name)
      (hf : ∀ f : Flag, (splitValue rest).1 ≠ Bytes.ofString f.name) :
      IsUnknown p (separator ++ rest) ("--" ++ Bytes.toStringLossy (splitValue rest).1)

theorem not_isUnknown_separator : ¬ p.IsUnknown separator shown := by
  intro h
  generalize hw : separator = w at h
  cases h with
  | letter hdash =>
    obtain ⟨-, rfl⟩ := List.cons.inj hw
    exact hdash rfl
  | bytes hdash =>
    obtain ⟨-, rfl⟩ := List.cons.inj hw
    exact hdash rfl
  | long hrest => exact hrest (by simpa using hw.symm)

theorem ne_nil_of_segments {bs : Bytes} {xs ys : List Utf8.Segment} {s : Utf8.Segment}
    (h : Utf8.segments bs = xs ++ s :: ys) : bs ≠ [] := by
  rintro rfl
  simp [Utf8.segments_nil] at h

theorem word_of_isUnknown (hsep : p.isSeparated = false) (h : p.IsUnknown w shown) :
    p.word w = .error (.invalid (.unknownOption shown)) := by
  cases h with
  | letter hdash htail hc hflags =>
    rw [word_short hsep (ne_nil_of_segments htail) hdash, htail, letters_append, hflags, bind_ok,
      letters_unknown _ hc]
  | bytes hdash htail hflags =>
    rw [word_short hsep (ne_nil_of_segments htail) hdash, htail, letters_append, hflags]
    rfl
  | long hrest ho hf => rw [word_long hsep hrest, long_unknown p ho hf]

theorem isUnknown_of_long {rest : Bytes} (hrest : rest ≠ [])
    (h : p.long (splitValue rest).1 (splitValue rest).2 =
      .error (.invalid (.unknownOption shown))) : p.IsUnknown (separator ++ rest) shown := by
  obtain ⟨o, v, -, -, hlong⟩ | ⟨o, -, -, hlong⟩ | ⟨f, -, -, hlong⟩ | ⟨f, v, hlong⟩ | ⟨ho, hf, hlong⟩ :=
    long_cases p (splitValue rest).1 (splitValue rest).2
  · rw [hlong] at h
    rcases bind_eq_error.mp h with hsettle | ⟨q, -, htake⟩
    · exact absurd hsettle (settle_ne_unknown p)
    · exact absurd htake (take_ne_unknown q o v)
  · rw [hlong] at h
    rcases bind_eq_error.mp h with hsettle | ⟨_, -, hwait⟩
    · exact absurd hsettle (settle_ne_unknown p)
    · cases hwait
  · rw [hlong] at h
    exact absurd h (flag_ne_unknown p f)
  · rw [hlong] at h
    cases h
  · rw [hlong] at h
    cases h
    exact .long hrest ho hf

theorem isUnknown_of_letters {tail : Bytes} (hdash : tail.head? ≠ some dash)
    (h : p.letters (Utf8.segments tail) = .error (.invalid (.unknownOption shown))) :
    p.IsUnknown (dash :: tail) shown := by
  obtain ⟨flags, hflags | ⟨c, rest, hc, hflags⟩ | ⟨bytes, rest, hflags⟩⟩ :=
    letters_cases (Utf8.segments tail)
  · have happend := letters_append p flags []
    rw [List.append_nil, ← hflags, h] at happend
    rcases bind_eq_error.mp happend.symm with hread | ⟨_, -, hnil⟩
    · exact absurd hread (foldlM_ne_error flag_ne_unknown flags p)
    · cases hnil
  · rw [hflags, letters_append] at h
    rcases bind_eq_error.mp h with hread | ⟨q, hread, hletter⟩
    · exact absurd hread (foldlM_ne_error flag_ne_unknown flags p)
    · rw [letters_unknown q hc] at hletter
      cases hletter
      exact .letter hdash hflags hc hread
  · rw [hflags, letters_append] at h
    rcases bind_eq_error.mp h with hread | ⟨q, hread, hbytes⟩
    · exact absurd hread (foldlM_ne_error flag_ne_unknown flags p)
    · cases hbytes
      exact .bytes hdash hflags hread

/-! ## Words too many -/

theorem strayError_eq_unknown_iff :
    strayError w = .unknownOption shown ↔ w.head? = some dash ∧ shown = Bytes.toStringLossy w := by
  have hhead : (Bytes.toStringLossy w).toList.head? = some '-' ↔ w.head? = some dash := by
    rw [Bytes.toStringLossy, String.toList_ofList]
    exact Utf8.head?_decodeLossy_iff (by decide) (by decide)
  unfold strayError
  dsimp only
  by_cases h : w.head? = some dash
  · rw [if_pos (hhead.mpr h)]
    simp [h, eq_comm]
  · rw [if_neg (mt hhead.mp h)]
    simp [h]

theorem word_of_isStray (h : p.IsStray w) : p.word w = .error (.invalid (strayError w)) := by
  cases hsep : p.isSeparated with
  | true => rw [word_of_isSeparated hsep, other_of_unexpected (Or.inl hsep)]
  | false =>
    obtain ⟨hplain, hwaiting⟩ := h.resolve_left (by simp [hsep])
    rw [word_plain hsep hplain, other_of_unexpected (Or.inr hwaiting)]

/-- **The words that are told as unknown options**: options that there are not, and words too many
that begin with a dash. -/
theorem word_eq_unknown_iff :
    p.word w = .error (.invalid (.unknownOption shown)) ↔
      p.isSeparated = false ∧ p.IsUnknown w shown ∨
        p.IsStray w ∧ w.head? = some dash ∧ shown = Bytes.toStringLossy w := by
  constructor
  · intro h
    cases hsep : p.isSeparated with
    | true =>
      have hstray : p.IsStray w := Or.inl hsep
      rw [word_of_isStray hstray, Except.error.injEq, Stop.invalid.injEq] at h
      exact Or.inr ⟨hstray, strayError_eq_unknown_iff.mp h⟩
    | false =>
      rcases word_cases w with rfl | ⟨rest, hrest, rfl⟩ | ⟨tail, htail, hdash, rfl⟩ | hplain
      · rw [word_separator hsep] at h
        cases h
      · rw [word_long hsep hrest] at h
        exact Or.inl ⟨rfl, isUnknown_of_long hrest h⟩
      · rw [word_short hsep htail hdash] at h
        exact Or.inl ⟨rfl, isUnknown_of_letters hdash h⟩
      · by_cases hwaiting : ∃ o, p.waiting = some (o, none)
        · obtain ⟨o, ho⟩ := hwaiting
          rw [word_plain hsep hplain, other_of_expecting hsep ho] at h
          cases h
        · have hstray : p.IsStray w := Or.inr ⟨hplain, not_exists.mp hwaiting⟩
          rw [word_of_isStray hstray, Except.error.injEq, Stop.invalid.injEq] at h
          exact Or.inr ⟨hstray, strayError_eq_unknown_iff.mp h⟩
  · rintro (⟨hsep, hunknown⟩ | ⟨hstray, hdash⟩)
    · exact word_of_isUnknown hsep hunknown
    · rw [word_of_isStray hstray, strayError_eq_unknown_iff.mpr hdash]

/-! ## The separator -/

theorem long_isSeparated {name : Bytes} {value : Option Bytes} (h : p.long name value = .ok q) :
    q.isSeparated = p.isSeparated := by
  obtain ⟨o, v, -, -, hlong⟩ | ⟨o, -, -, hlong⟩ | ⟨f, -, -, hlong⟩ | ⟨f, v, hlong⟩ | ⟨-, -, hlong⟩ :=
    long_cases p name value
  · rw [hlong] at h
    obtain ⟨settled, hsettle, htake⟩ := bind_eq_ok.mp h
    exact (take_waiting htake).2.trans (settle_eq_ok hsettle).2.1
  · rw [hlong] at h
    obtain ⟨settled, hsettle, hq⟩ := bind_eq_ok.mp h
    cases hq
    exact (settle_eq_ok hsettle).2.1
  · rw [hlong] at h
    exact (flag_eq_ok h).2.2
  · rw [hlong] at h
    cases h
  · rw [hlong] at h
    cases h

theorem letters_isSeparated {segments : List Utf8.Segment} (h : p.letters segments = .ok q) :
    q.isSeparated = p.isSeparated := by
  induction segments generalizing p with
  | nil =>
    cases h
    rfl
  | cons segment segments ih =>
    cases segment with
    | illFormed bytes => cases h
    | scalar c =>
      by_cases hc : ∃ f : Flag, f.letter = c
      · obtain ⟨f, rfl⟩ := hc
        rw [letters_cons] at h
        obtain ⟨next, hflag, hrest⟩ := bind_eq_ok.mp h
        exact (ih hrest).trans (flag_eq_ok hflag).2.2
      · rw [letters_unknown p (not_exists.mp hc)] at h
        cases h

/-- Words can be read up to the separator, and it. -/
theorem word_isSeparated (h : p.word w = .ok q) :
    p.isSeparated = false ∧ (q.isSeparated = true ↔ w = separator) := by
  cases hsep : p.isSeparated with
  | true =>
    rw [word_of_isStray (Or.inl hsep)] at h
    cases h
  | false =>
    refine ⟨rfl, ?_⟩
    rcases word_cases w with rfl | ⟨rest, hrest, rfl⟩ | ⟨tail, htail, hdash, rfl⟩ | hplain
    · rw [word_separator hsep] at h
      cases h
      simp
    · rw [word_long hsep hrest] at h
      simp [long_isSeparated h, hsep, hrest]
    · rw [word_short hsep htail hdash] at h
      have hne : dash :: tail ≠ separator := by
        intro heq
        obtain ⟨-, rfl⟩ := List.cons.inj heq
        exact hdash rfl
      simp [letters_isSeparated h, hsep, hne]
    · have hne : w ≠ separator := by
        rintro rfl
        cases hplain rfl
      rw [word_plain hsep hplain] at h
      unfold other at h
      split at h
      · cases h
        simp [hsep, hne]
      · dsimp only at h
        split at h <;> cases h

theorem words_isSeparated {ws : List Bytes} (h : ws.foldlM word p = .ok q) :
    q.isSeparated = true ↔ p.isSeparated = true ∨ separator ∈ ws := by
  induction ws generalizing p with
  | nil =>
    cases h
    simp
  | cons w ws ih =>
    rw [List.foldlM_cons] at h
    obtain ⟨next, hword, hrest⟩ := bind_eq_ok.mp h
    obtain ⟨hsep, hnext⟩ := word_isSeparated hword
    rw [ih hrest, hnext, hsep, List.mem_cons, eq_comm]
    simp

end Progress

/-! ## Refusals -/

/-- Reading the words ends at an option that there is not, before any separator. -/
def StopsAtUnknown (words : List Bytes) (shown : String) : Prop :=
  ∃ before w after p, words = before ++ w :: after ∧ separator ∉ before ∧
    before.foldlM Progress.word .start = .ok p ∧ p.IsUnknown w shown

/-- Reading the words ends at a word too many that begins with a dash: any such word behind the
separator, or a dash alone where no option waits for its value. -/
def StopsAtDashed (words : List Bytes) (shown : String) : Prop :=
  ∃ before w after p, words = before ++ w :: after ∧
    before.foldlM Progress.word .start = .ok p ∧
    (separator ∈ before ∨ w = [dash] ∧ ∀ o, p.waiting ≠ some (o, none)) ∧
      w.head? = some dash ∧ shown = Bytes.toStringLossy w

/-- What is left to do after the last word never finds an unknown option. -/
theorem read_eq_unknown_iff {words : List Bytes} {env : Environment} {shown : String} :
    Progress.read words env = .error (.invalid (.unknownOption shown)) ↔
      words.foldlM Progress.word .start = .error (.invalid (.unknownOption shown)) := by
  rw [Progress.read, bind_eq_error, or_iff_left]
  rintro ⟨p, -, h⟩
  rcases bind_eq_error.mp h with hsettle | ⟨q, -, h⟩
  · exact Progress.settle_ne_unknown p hsettle
  rcases bind_eq_error.mp h with henv | ⟨r, -, h⟩
  · exact foldlM_ne_error (Progress.fromEnvironment_ne_unknown env) _ q henv
  · cases h

theorem parse_eq_unknown_iff {words : List Bytes} {env : Environment} {shown : String} :
    parse words env = .invalid (.unknownOption shown) ↔
      StopsAtUnknown words shown ∨ StopsAtDashed words shown := by
  have hparse : parse words env = .invalid (.unknownOption shown) ↔
      Progress.read words env = .error (.invalid (.unknownOption shown)) := by
    rw [parse]
    cases Progress.read words env with
    | ok s => simp
    | error e => cases e <;> simp
  rw [hparse, read_eq_unknown_iff, foldlM_eq_error_iff]
  constructor
  · rintro ⟨before, w, after, p, hwords, hbefore, hw⟩
    have hseparated := Progress.words_isSeparated hbefore
    rcases Progress.word_eq_unknown_iff.mp hw with ⟨hsep, hunknown⟩ | ⟨hstray, hdash, hshown⟩
    · -- behind a separator nothing is read as an option
      refine Or.inl ⟨before, w, after, p, hwords, fun hmem => ?_, hbefore, hunknown⟩
      rw [hseparated.mpr (Or.inr hmem)] at hsep
      cases hsep
    · refine Or.inr ⟨before, w, after, p, hwords, hbefore, ?_, hdash, hshown⟩
      rcases hstray with hsep | ⟨hplain, hwaiting⟩
      · exact Or.inl ((hseparated.mp hsep).resolve_left (by simp [Progress.start]))
      · exact Or.inr ⟨hplain hdash, hwaiting⟩
  · rintro (⟨before, w, after, p, hwords, hnot, hbefore, hunknown⟩ |
      ⟨before, w, after, p, hwords, hbefore, hstray, hdash, hshown⟩)
    · refine ⟨before, w, after, p, hwords, hbefore,
        Progress.word_eq_unknown_iff.mpr (Or.inl ⟨?_, hunknown⟩)⟩
      rw [← Bool.not_eq_true, Progress.words_isSeparated hbefore]
      simpa [Progress.start] using hnot
    · refine ⟨before, w, after, p, hwords, hbefore,
        Progress.word_eq_unknown_iff.mpr (Or.inr ⟨?_, hdash, hshown⟩)⟩
      rcases hstray with hmem | ⟨rfl, hwaiting⟩
      · exact Or.inl ((Progress.words_isSeparated hbefore).mpr (Or.inr hmem))
      · exact Or.inr ⟨fun _ => rfl, hwaiting⟩

namespace UsageError

variable {e : UsageError}

theorem message_unknown (program shown : String) :
    (unknownOption shown).message program = "Invalid option: " ++ shown ++ "\n" := rfl

/-- Apart from unknown options, what is wrong is called an error. -/
theorem prefix_reason (h : ∀ shown, e ≠ .unknownOption shown) :
    "error: ".toList <+: e.reason.toList := by
  cases e with
  | unknownOption shown => exact absurd rfl (h shown)
  | unexpectedWord word => exact prefix_append (prefix_append (by decide) _) _
  | unneededValue flag value afterOthers =>
    exact prefix_append (prefix_append (prefix_append (prefix_append (by decide) _) _) _) _
  | missingValue o => exact prefix_append (prefix_append (by decide) _) _
  | repeatedGenerate => exact prefix_append (prefix_append (by decide) _) _
  | repeatedOption o => exact prefix_append (prefix_append (by decide) _) _

theorem prefix_message (program : String) (h : ∀ shown, e ≠ .unknownOption shown) :
    "error: ".toList <+: (e.message program).toList := by
  have hreason := prefix_reason h
  unfold message
  split
  · exact absurd rfl (h _)
  · refine Printable.prefix_strip (by decide) ?_
    exact prefix_append (prefix_append (prefix_append hreason _) _) _

/-- The message tells the unknown options from all other refusals, and what is unknown. -/
theorem message_eq_unknown_iff (program shown : String) :
    e.message program = "Invalid option: " ++ shown ++ "\n" ↔ e = .unknownOption shown := by
  by_cases he : ∃ shown', e = .unknownOption shown'
  · obtain ⟨shown', rfl⟩ := he
    simp [message_unknown]
  · have hprefix := prefix_message program (not_exists.mp he)
    constructor
    · intro h
      rw [h] at hprefix
      simp [String.toList_append] at hprefix
    · rintro rfl
      exact absurd ⟨_, rfl⟩ he

end UsageError

/-- **What the message of a refusal says.** It tells of an invalid option exactly if reading the words
ends at an option that there is not, before any separator, or at a word too many that begins with a
dash; and what it shows is what is unknown of that word, or all of it. Every other message is one for
an error. -/
theorem message_of_invalid {words : List Bytes} {env : Environment} {e : UsageError}
    (h : parse words env = .invalid e) (program : String) :
    (∀ shown, e.message program = "Invalid option: " ++ shown ++ "\n" ↔
      StopsAtUnknown words shown ∨ StopsAtDashed words shown) ∧
    ((∀ shown, ¬ StopsAtUnknown words shown ∧ ¬ StopsAtDashed words shown) →
      "error: ".toList <+: (e.message program).toList) := by
  have hshown (shown : String) :
      e = .unknownOption shown ↔ StopsAtUnknown words shown ∨ StopsAtDashed words shown := by
    rw [← @parse_eq_unknown_iff words env, h, Invocation.invalid.injEq]
  refine ⟨fun shown => ?_, fun hnone => ?_⟩
  · rw [UsageError.message_eq_unknown_iff, hshown]
  · refine UsageError.prefix_message program fun shown he => ?_
    exact not_or.mpr (hnone shown) ((hshown shown).mp he)

/-- An unknown letter between two flags. -/
theorem message_of_unknown_letter :
    parse [Bytes.ofString "-ozv"] [] = .invalid (.unknownOption "-z") ∧
      (UsageError.unknownOption "-z").message standardName = "Invalid option: -z\n" := by
  have hparse : parse [Bytes.ofString "-ozv"] [] = .invalid (.unknownOption "-z") := by decide
  have hsegments : Utf8.segments (Bytes.ofString "ozv") =
      [Flag.generate].map (fun f => .scalar f.letter) ++ .scalar 'z' :: [.scalar 'v'] := by decide
  have hunknown : Progress.start.IsUnknown (Bytes.ofString "-ozv") "-z" :=
    .letter (by decide) hsegments (fun f => by cases f <;> decide) rfl
  refine ⟨hparse, ((message_of_invalid hparse standardName).1 "-z").mpr (Or.inl ?_)⟩
  exact ⟨[], _, [], .start, rfl, by decide, rfl, hunknown⟩

/-- A word behind the separator is told as an invalid option, although none was written. -/
theorem message_of_word_behind_separator :
    ∃ e, parse [separator, Bytes.ofString "-x"] [] = .invalid e ∧
      e.message standardName = "Invalid option: -x\n" ∧
        ∀ shown, ¬ StopsAtUnknown [separator, Bytes.ofString "-x"] shown := by
  refine ⟨.unknownOption "-x", by decide, rfl, ?_⟩
  rintro shown ⟨before, w, after, p, hwords, hnot, -, hunknown⟩
  cases before with
  | nil =>
    obtain ⟨rfl, -⟩ := List.cons.inj hwords
    exact Progress.not_isUnknown_separator hunknown
  | cons w' before =>
    obtain ⟨rfl, -⟩ := List.cons.inj hwords
    exact hnot List.mem_cons_self

end GoldenHarness.CommandLine

import GoldenHarness.CommandLine.Parse
import GoldenHarness.Proofs.Failing
import GoldenHarness.Proofs.Text.Utf8
import Mathlib.Data.List.TakeWhile

/-!
# Reading one word

A word of a command line is the separator, a long option, a cluster of short flags, or none of these.
What reading it does is told here for each kind, so that later proofs need not look into the reader.
-/

namespace GoldenHarness.CommandLine

/-! ## Kinds of words -/

/-- A word that does not look like an option: it does not begin with a dash, or is nothing else. -/
def IsPlain (w : Bytes) : Prop := w.head? = some dash → w = [dash]

instance : DecidablePred IsPlain := fun w =>
  inferInstanceAs (Decidable (w.head? = some dash → w = [dash]))

/-- Every word is of one kind. -/
theorem word_cases (w : Bytes) :
    w = separator ∨ (∃ rest, rest ≠ [] ∧ w = separator ++ rest) ∨
      (∃ tail, tail ≠ [] ∧ tail.head? ≠ some dash ∧ w = dash :: tail) ∨ IsPlain w := by
  by_cases hplain : IsPlain w
  · exact Or.inr (Or.inr (Or.inr hplain))
  obtain ⟨hdash, hne⟩ := Classical.not_imp.mp hplain
  obtain ⟨tail, rfl⟩ := List.head?_eq_some_iff.mp hdash
  have htail : tail ≠ [] := by
    rintro rfl
    exact hne rfl
  by_cases hsecond : tail.head? = some dash
  · obtain ⟨rest, rfl⟩ := List.head?_eq_some_iff.mp hsecond
    by_cases hrest : rest = []
    · left
      rw [hrest]
      rfl
    · exact Or.inr (Or.inl ⟨rest, hrest, rfl⟩)
  · exact Or.inr (Or.inr (Or.inl ⟨tail, htail, hsecond, rfl⟩))

/-! ## Names and values -/

theorem splitValue_of_not_mem {w : Bytes} (h : equals ∉ w) : Progress.splitValue w = (w, none) := by
  have hdrop : w.dropWhile (· ≠ equals) = [] := by
    rw [List.dropWhile_eq_nil_iff]
    intro b hb
    exact decide_eq_true (ne_of_mem_of_not_mem hb h)
  unfold Progress.splitValue
  rw [hdrop]

theorem splitValue_append {name : Bytes} (h : equals ∉ name) (value : Bytes) :
    Progress.splitValue (name ++ equals :: value) = (name, some value) := by
  have hname : ∀ b ∈ name, decide (b ≠ equals) = true := fun b hb =>
    decide_eq_true (ne_of_mem_of_not_mem hb h)
  have hdrop : (name ++ equals :: value).dropWhile (· ≠ equals) = equals :: value := by
    rw [List.dropWhile_append_of_pos hname]
    simp
  have htake : (name ++ equals :: value).takeWhile (· ≠ equals) = name := by
    rw [List.takeWhile_append_of_pos hname]
    simp
  unfold Progress.splitValue
  rw [hdrop, htake]

/-- A word is split at its first equals sign, if it has one. -/
theorem splitValue_cases (w : Bytes) :
    (equals ∉ w ∧ Progress.splitValue w = (w, none)) ∨
      ∃ name value, equals ∉ name ∧ w = name ++ equals :: value ∧
        Progress.splitValue w = (name, some value) := by
  by_cases h : equals ∈ w
  · obtain ⟨name, value, hw, hname⟩ := List.eq_append_cons_of_mem h
    exact Or.inr ⟨name, value, hname, hw, hw ▸ splitValue_append hname value⟩
  · exact Or.inl ⟨h, splitValue_of_not_mem h⟩

theorem equals_not_mem_option (o : ValueOption) : equals ∉ Bytes.ofString o.name := by
  cases o <;> decide

theorem equals_not_mem_flag (f : Flag) : equals ∉ Bytes.ofString f.name := by
  cases f <;> decide

theorem find?_option (o : ValueOption) :
    ValueOption.all.find? (fun o' => Bytes.ofString o'.name = Bytes.ofString o.name) = some o := by
  cases o <;> decide

theorem find?_flag (f : Flag) :
    Flag.all.find? (fun f' => Bytes.ofString f'.name = Bytes.ofString f.name) = some f := by
  cases f <;> decide

/-- No flag has the name of an option. -/
theorem find?_option_of_flag (f : Flag) :
    ValueOption.all.find? (fun o => Bytes.ofString o.name = Bytes.ofString f.name) = none := by
  cases f <;> decide

theorem find?_letter (f : Flag) : Flag.all.find? (·.letter = f.letter) = some f := by
  cases f <;> decide

namespace Progress

variable {p q : Progress} {w : Bytes}

/-! ## Taking up the option that waits -/

theorem take_waiting {o : ValueOption} {value : Bytes} (h : p.take o value = .ok q) :
    q.waiting = p.waiting ∧ q.isSeparated = p.isSeparated := by
  unfold take at h
  split at h
  · cases h
  split at h
  · cases h
  · cases h
    exact ⟨rfl, rfl⟩

theorem settle_of_none (h : p.waiting = none) : p.settle = .ok p := by
  unfold settle
  rw [h]

theorem settle_of_missing {o : ValueOption} (h : p.waiting = some (o, none)) :
    p.settle = .error (.invalid (.missingValue o)) := by
  unfold settle
  rw [h]

/-- Nothing waits once what waited is taken up. -/
theorem settle_eq_ok (h : p.settle = .ok q) :
    q.waiting = none ∧ q.isSeparated = p.isSeparated ∧ q.settle = .ok q := by
  have hq : q.waiting = none ∧ q.isSeparated = p.isSeparated := by
    unfold settle at h
    split at h
    · next hnone =>
      cases h
      exact ⟨hnone, rfl⟩
    · cases h
    · exact take_waiting h
  exact ⟨hq.1, hq.2, settle_of_none hq.1⟩

/-- A flag is taken up after the option that waits. -/
theorem flag_eq (p : Progress) (f : Flag) : p.flag f = p.settle >>= fun q => q.flag f := by
  cases hsettle : p.settle with
  | error e =>
    rw [flag, hsettle]
    rfl
  | ok q =>
    rw [bind_ok, flag, flag, hsettle, (settle_eq_ok hsettle).2.2]

theorem flag_eq_ok {f : Flag} (h : p.flag f = .ok q) :
    f ≠ .help ∧ q.waiting = none ∧ q.isSeparated = p.isSeparated := by
  unfold flag at h
  obtain ⟨settled, hsettle, htaken⟩ := bind_eq_ok.mp h
  obtain ⟨hwaiting, hseparated, -⟩ := settle_eq_ok hsettle
  cases f with
  | help => cases htaken
  | verbose =>
    cases htaken
    exact ⟨nofun, hwaiting, hseparated⟩
  | generate =>
    dsimp only at htaken
    split at htaken
    · cases htaken
    · cases htaken
      exact ⟨nofun, hwaiting, hseparated⟩

/-! ## Reading a word of each kind -/

theorem word_of_isSeparated (h : p.isSeparated = true) (w : Bytes) : p.word w = p.other w := by
  unfold word
  rw [if_pos h]

theorem word_separator (h : p.isSeparated = false) :
    p.word separator = .ok { p with isSeparated := true } := by
  unfold word
  rw [if_neg (by simp [h]), if_pos rfl]

theorem word_long (h : p.isSeparated = false) {rest : Bytes} (hrest : rest ≠ []) :
    p.word (separator ++ rest) = p.long (splitValue rest).1 (splitValue rest).2 := by
  have hne : separator ++ rest ≠ separator := by simpa using hrest
  have hprefix : separator.isPrefixOf (separator ++ rest) := by
    rw [List.isPrefixOf_iff_prefix]
    exact List.prefix_append _ _
  unfold word
  rw [if_neg (by simp [h]), if_neg hne, if_pos hprefix]
  rfl

theorem word_short (h : p.isSeparated = false) {tail : Bytes} (hne : tail ≠ [])
    (htail : tail.head? ≠ some dash) : p.word (dash :: tail) = p.letters (Utf8.segments tail) := by
  have hprefix : ¬ separator.isPrefixOf (dash :: tail) := by
    rw [List.isPrefixOf_iff_prefix]
    rintro ⟨rest, hrest⟩
    obtain ⟨-, rfl⟩ := List.cons.inj hrest
    exact htail rfl
  have hseparator : dash :: tail ≠ separator := by
    intro heq
    obtain ⟨-, rfl⟩ := List.cons.inj heq
    exact htail rfl
  unfold word
  rw [if_neg (by simp [h]), if_neg hseparator, if_neg hprefix,
    if_pos ⟨rfl, by simpa using hne⟩]
  rfl

theorem word_plain (h : p.isSeparated = false) (hw : IsPlain w) : p.word w = p.other w := by
  have hprefix : ¬ separator.isPrefixOf w := by
    rw [List.isPrefixOf_iff_prefix]
    rintro ⟨rest, rfl⟩
    cases hw rfl
  have hseparator : w ≠ separator := by
    rintro rfl
    cases hw rfl
  unfold word
  rw [if_neg (by simp [h]), if_neg hseparator, if_neg hprefix,
    if_neg fun hdash => hdash.2 (hw hdash.1)]

/-! ## Long options and clusters -/

theorem long_joined (p : Progress) (o : ValueOption) (value : Bytes) :
    p.long (Bytes.ofString o.name) (some value) = p.settle >>= fun q => q.take o value := by
  unfold long
  rw [find?_option]

theorem long_separate (p : Progress) (o : ValueOption) :
    p.long (Bytes.ofString o.name) none =
      p.settle >>= fun q => .ok { q with waiting := some (o, none) } := by
  unfold long
  rw [find?_option]

theorem long_flag (p : Progress) (f : Flag) : p.long (Bytes.ofString f.name) none = p.flag f := by
  unfold long
  rw [find?_option_of_flag, find?_flag]

theorem long_flag_value (p : Progress) (f : Flag) (value : Bytes) :
    p.long (Bytes.ofString f.name) (some value) =
      .error (.invalid (.unneededValue f (Bytes.toStringLossy value) p.hasOptions)) := by
  unfold long
  rw [find?_option_of_flag, find?_flag]

theorem long_unknown (p : Progress) {name : Bytes}
    (ho : ∀ o : ValueOption, name ≠ Bytes.ofString o.name)
    (hf : ∀ f : Flag, name ≠ Bytes.ofString f.name) (value : Option Bytes) :
    p.long name value = .error (.invalid (.unknownOption ("--" ++ Bytes.toStringLossy name))) := by
  have hoptions : ValueOption.all.find? (fun o => Bytes.ofString o.name = name) = none := by
    rw [List.find?_eq_none]
    intro o _
    simpa using (ho o).symm
  have hflags : Flag.all.find? (fun f => Bytes.ofString f.name = name) = none := by
    rw [List.find?_eq_none]
    intro f _
    simpa using (hf f).symm
  unfold long
  rw [hoptions, hflags]

/-- A name is that of an option, that of a flag, or unknown. -/
theorem name_cases (name : Bytes) :
    (∃ o : ValueOption, name = Bytes.ofString o.name) ∨
      (∃ f : Flag, name = Bytes.ofString f.name) ∨
        (∀ o : ValueOption, name ≠ Bytes.ofString o.name) ∧
          ∀ f : Flag, name ≠ Bytes.ofString f.name := by
  by_cases ho : ∃ o : ValueOption, name = Bytes.ofString o.name
  · exact Or.inl ho
  by_cases hf : ∃ f : Flag, name = Bytes.ofString f.name
  · exact Or.inr (Or.inl hf)
  · exact Or.inr (Or.inr ⟨fun o h => ho ⟨o, h⟩, fun f h => hf ⟨f, h⟩⟩)

/-- What reading a long option comes to, by its name and whether a value is joined to it. -/
theorem long_cases (p : Progress) (name : Bytes) (value : Option Bytes) :
    (∃ o v, name = Bytes.ofString (ValueOption.name o) ∧ value = some v ∧
      p.long name value = p.settle >>= fun q => q.take o v) ∨
    (∃ o, name = Bytes.ofString (ValueOption.name o) ∧ value = none ∧
      p.long name value = p.settle >>= fun q => .ok { q with waiting := some (o, none) }) ∨
    (∃ f, name = Bytes.ofString (Flag.name f) ∧ value = none ∧ p.long name value = p.flag f) ∨
    (∃ f v, p.long name value = .error (.invalid (.unneededValue f v p.hasOptions))) ∨
    ((∀ o, name ≠ Bytes.ofString (ValueOption.name o)) ∧ (∀ f, name ≠ Bytes.ofString (Flag.name f)) ∧
      p.long name value = .error (.invalid (.unknownOption ("--" ++ Bytes.toStringLossy name)))) := by
  obtain ⟨o, rfl⟩ | ⟨f, rfl⟩ | ⟨ho, hf⟩ := name_cases name
  · cases value with
    | some v => exact Or.inl ⟨o, v, rfl, rfl, long_joined p o v⟩
    | none => exact Or.inr (Or.inl ⟨o, rfl, rfl, long_separate p o⟩)
  · cases value with
    | some v => exact Or.inr (Or.inr (Or.inr (Or.inl ⟨f, _, long_flag_value p f v⟩)))
    | none => exact Or.inr (Or.inr (Or.inl ⟨f, rfl, rfl, long_flag p f⟩))
  · exact Or.inr (Or.inr (Or.inr (Or.inr ⟨ho, hf, long_unknown p ho hf value⟩)))

theorem letters_scalar (p : Progress) (c : Char) (rest : List Utf8.Segment) :
    p.letters (.scalar c :: rest) =
      match Flag.all.find? (·.letter = c) with
      | some f => p.flag f >>= fun q => q.letters rest
      | none => .error (.invalid (.unknownOption (String.ofList ['-', c]))) := rfl

theorem letters_cons (p : Progress) (f : Flag) (rest : List Utf8.Segment) :
    p.letters (.scalar f.letter :: rest) = p.flag f >>= fun q => q.letters rest := by
  rw [letters_scalar, find?_letter]

/-- Letters that name flags are taken up one after the other, before what follows is looked at. -/
theorem letters_append (p : Progress) (flags : List Flag) (rest : List Utf8.Segment) :
    p.letters (flags.map (fun f => .scalar f.letter) ++ rest) =
      flags.foldlM flag p >>= fun q => q.letters rest := by
  induction flags generalizing p with
  | nil => rfl
  | cons f flags ih =>
    rw [List.map_cons, List.cons_append, letters_cons, List.foldlM_cons, bind_assoc]
    congr 1
    funext q
    exact ih q

theorem letters_unknown (p : Progress) {c : Char} (h : ∀ f : Flag, f.letter ≠ c)
    (rest : List Utf8.Segment) :
    p.letters (.scalar c :: rest) =
      .error (.invalid (.unknownOption (String.ofList ['-', c]))) := by
  have hfind : Flag.all.find? (·.letter = c) = none := by
    rw [List.find?_eq_none]
    intro f _
    simpa using h f
  rw [letters_scalar, hfind]

/-- The letters of a cluster name flags throughout, or up to a first segment that names none. -/
theorem letters_cases (segments : List Utf8.Segment) :
    ∃ flags : List Flag, segments = flags.map (fun f => .scalar f.letter) ∨
      (∃ c rest, (∀ f : Flag, f.letter ≠ c) ∧
        segments = flags.map (fun f => .scalar f.letter) ++ .scalar c :: rest) ∨
      ∃ bytes rest,
        segments = flags.map (fun f => .scalar f.letter) ++ .illFormed bytes :: rest := by
  induction segments with
  | nil => exact ⟨[], Or.inl rfl⟩
  | cons segment segments ih =>
    cases segment with
    | illFormed bytes => exact ⟨[], Or.inr (Or.inr ⟨bytes, segments, rfl⟩)⟩
    | scalar c =>
      by_cases hc : ∃ f : Flag, f.letter = c
      · obtain ⟨f, rfl⟩ := hc
        obtain ⟨flags, rfl | ⟨c, rest, hc, rfl⟩ | ⟨bytes, rest, rfl⟩⟩ := ih
        · exact ⟨f :: flags, Or.inl rfl⟩
        · exact ⟨f :: flags, Or.inr (Or.inl ⟨c, rest, hc, rfl⟩)⟩
        · exact ⟨f :: flags, Or.inr (Or.inr ⟨bytes, rest, rfl⟩)⟩
      · exact ⟨[], Or.inr (Or.inl ⟨c, segments, fun f hf => hc ⟨f, hf⟩, rfl⟩)⟩

/-! ## Words that are no options -/

theorem other_of_expecting {o : ValueOption} (hsep : p.isSeparated = false)
    (hwaiting : p.waiting = some (o, none)) (w : Bytes) :
    p.other w = .ok { p with waiting := some (o, some w) } := by
  rw [other, hsep, hwaiting]

/-- A word where none is expected: after the separator, or where no option waits for its value. -/
def IsStray (p : Progress) (w : Bytes) : Prop :=
  p.isSeparated = true ∨ IsPlain w ∧ ∀ o, p.waiting ≠ some (o, none)

/-- The error for a word too many. -/
def strayError (w : Bytes) : UsageError :=
  let shown := Bytes.toStringLossy w
  if shown.toList.head? = some '-' then .unknownOption shown else .unexpectedWord shown

theorem other_of_unexpected (h : p.isSeparated = true ∨ ∀ o, p.waiting ≠ some (o, none))
    (w : Bytes) : p.other w = .error (.invalid (strayError w)) := by
  unfold other strayError
  dsimp only
  split
  · next o hsep hwaiting =>
    rcases h with h | h
    · rw [hsep] at h
      cases h
    · exact absurd hwaiting (h o)
  · split <;> rfl

end Progress

end GoldenHarness.CommandLine

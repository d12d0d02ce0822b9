import GoldenHarness.Text.Line

/-!
# The lines that texts are cut into

Every line of a text is made of characters that end no line and at most one end after them, and a
text that begins with such a line is cut after it.
-/

namespace GoldenHarness.Line

/-! ## Lines and their ends -/

/-- A text that no line ends within. -/
def IsInner (text : List Char) : Prop := ∀ c ∈ text, c ≠ '\n' ∧ c ≠ '\r'

instance (text : List Char) : Decidable (IsInner text) :=
  List.decidableBAll (fun c => c ≠ '\n' ∧ c ≠ '\r') text

/-- The ends that a line may have. -/
def endings : List (List Char) := [['\n'], ['\r', '\n'], ['\r']]

/-- A line as texts are cut into. -/
inductive IsCut : Line → Prop where
  /-- A line with an end. -/
  | ended {line inner ending : List Char} (hinner : IsInner inner) (hending : ending ∈ endings)
    (hline : line = inner ++ ending) : IsCut line
  /-- A line that has no end. -/
  | unended {line : List Char} (hline : IsInner line) : IsCut line

theorem isInner_nil : IsInner [] := by
  intro c hc
  cases hc

theorem IsInner.cons {c : Char} {text : List Char} (hc : c ≠ '\n' ∧ c ≠ '\r') (h : IsInner text) :
    IsInner (c :: text) := by
  intro d hd
  rcases List.mem_cons.mp hd with rfl | hd
  · exact hc
  · exact h d hd

theorem IsInner.append {text more : List Char} (h : IsInner text) (hmore : IsInner more) :
    IsInner (text ++ more) := by
  intro c hc
  rcases List.mem_append.mp hc with hc | hc
  · exact h c hc
  · exact hmore c hc

theorem IsInner.reverse {text : List Char} (h : IsInner text) : IsInner text.reverse :=
  fun c hc => h c (List.mem_reverse.mp hc)

/-- What holds where a text ends, and is kept where a line is ended and where a character goes to the line
that is being read, holds of any text. -/
theorem splitFrom_induction {motive : List Char → List Char → List Line → Prop}
    (empty : motive [] [] []) (unended : ∀ {held}, held ≠ [] → motive held [] [held.reverse])
    (ended : ∀ {held ending rest}, ending ∈ endings → motive [] rest (splitFrom [] rest) →
      motive held (ending ++ rest) ((held.reverse ++ ending) :: splitFrom [] rest))
    (inner : ∀ {held c rest}, c ≠ '\n' ∧ c ≠ '\r' →
      motive (c :: held) rest (splitFrom (c :: held) rest) →
      motive held (c :: rest) (splitFrom (c :: held) rest))
    (held text : List Char) : motive held text (splitFrom held text) := by
  fun_induction splitFrom held text with
  | case1 held hempty =>
    rw [List.isEmpty_iff.mp hempty]
    exact empty
  | case2 held hheld => exact unended fun hnil => hheld (List.isEmpty_iff.mpr hnil)
  | case3 held rest ih =>
    rw [List.reverse_cons]
    exact @ended held ['\n'] rest (by decide) ih
  | case4 held rest ih =>
    rw [List.reverse_cons, List.reverse_cons, List.append_assoc]
    exact @ended held ['\r', '\n'] rest (by decide) ih
  | case5 held rest _ ih =>
    rw [List.reverse_cons]
    exact @ended held ['\r'] rest (by decide) ih
  | case6 held c rest hfeed _ hreturn ih => exact inner ⟨hfeed, hreturn⟩ ih

theorem isCut_of_mem_splitFrom {held text : List Char} {line : Line} (hheld : IsInner held)
    (h : line ∈ splitFrom held text) : IsCut line := by
  revert hheld h
  refine splitFrom_induction (motive := fun held _ lines => IsInner held → line ∈ lines → IsCut line)
    ?_ ?_ ?_ ?_ held text
  · intro _ h
    cases h
  · intro held _ hheld h
    obtain rfl := List.mem_singleton.mp h
    exact .unended hheld.reverse
  · intro held ending rest hending ih hheld h
    rcases List.mem_cons.mp h with rfl | h
    · exact .ended hheld.reverse hending rfl
    · exact ih isInner_nil h
  · intro held c rest hc ih hheld h
    exact ih (hheld.cons hc) h

/-- Every line of a text is one that texts are cut into. -/
theorem isCut_of_mem_split {text : List Char} {line : Line} (h : line ∈ split text) : IsCut line :=
  isCut_of_mem_splitFrom isInner_nil h

theorem isEnded_append_ending {inner ending : List Char} (h : ending ∈ endings) :
    isEnded (inner ++ ending) := by
  simp only [endings, List.mem_cons, List.not_mem_nil, or_false] at h
  rcases h with rfl | rfl | rfl <;> simp [isEnded, List.getLast?_append]

theorem not_isEnded_of_isInner {inner : List Char} (h : IsInner inner) : ¬ isEnded inner := by
  unfold isEnded
  split
  · next c hc =>
    have hc := h c (List.mem_of_getLast? hc)
    simp [hc.1, hc.2]
  · simp

/-! ## Cutting after a line -/

/-- Characters that end no line go to the line that is being read. -/
theorem splitFrom_append_of_isInner {held inner rest : List Char} (h : IsInner inner) :
    splitFrom held (inner ++ rest) = splitFrom (inner.reverse ++ held) rest := by
  induction inner generalizing held with
  | nil => rfl
  | cons c inner ih =>
    obtain ⟨hfeed, hreturn⟩ := h c List.mem_cons_self
    have hinner : IsInner inner := fun d hd => h d (List.mem_cons_of_mem c hd)
    rw [List.cons_append, splitFrom, ih hinner, List.reverse_cons, List.append_assoc]
    · rfl
    · exact hfeed
    · exact fun _ he _ => hreturn he
    · exact hreturn

/-- An end ends the line that is being read, if what follows does not make it longer. -/
theorem splitFrom_append_of_ending {held ending rest : List Char} (h : ending ∈ endings)
    (hrest : rest.head? ≠ some '\n') :
    splitFrom held (ending ++ rest) = (held.reverse ++ ending) :: split rest := by
  simp only [endings, List.mem_cons, List.not_mem_nil, or_false] at h
  rcases h with rfl | rfl | rfl
  · rw [← List.reverse_cons]
    rfl
  · have hheld : held.reverse ++ ['\r', '\n'] = ('\n' :: '\r' :: held).reverse := by simp
    rw [hheld]
    rfl
  · have hfeed (tail : List Char) : rest ≠ '\n' :: tail := by
      rintro rfl
      exact hrest rfl
    rw [List.singleton_append, splitFrom, List.reverse_cons]
    · rfl
    · exact hfeed

/-- A text that begins with a line is cut after it. -/
theorem split_append_of_ended {inner ending rest : List Char} (hinner : IsInner inner)
    (hending : ending ∈ endings) (hrest : rest.head? ≠ some '\n') :
    split (inner ++ ending ++ rest) = (inner ++ ending) :: split rest := by
  unfold split
  rw [List.append_assoc, splitFrom_append_of_isInner hinner,
    splitFrom_append_of_ending hending hrest]
  simp [split]

/-- The first line begins with what is held of it. -/
theorem head?_of_splitFrom {held text : List Char} {line : Line} {lines : List Line}
    (hheld : held ≠ []) (h : splitFrom held text = line :: lines) :
    line.head? = held.getLast? := by
  revert hheld h
  refine splitFrom_induction
    (motive := fun held _ cut => held ≠ [] → cut = line :: lines → line.head? = held.getLast?)
    ?_ ?_ ?_ ?_ held text
  · intro hheld
    exact absurd rfl hheld
  · intro held _ _ h
    obtain ⟨rfl, -⟩ := List.cons.inj h
    exact List.head?_reverse
  · intro held ending rest _ _ hheld h
    obtain ⟨rfl, -⟩ := List.cons.inj h
    rw [List.head?_append, List.head?_reverse, List.getLast?_eq_some_getLast hheld, Option.some_or]
  · intro held c rest _ ih hheld h
    rw [ih (List.cons_ne_nil c held) h, List.getLast?_cons_of_ne_nil hheld]

/-- A text that begins with an inner character is cut into lines of which the first begins with it. -/
theorem head?_of_split_cons {c : Char} {text : List Char} {line : Line} {lines : List Line}
    (hc : c ≠ '\n' ∧ c ≠ '\r') (h : split (c :: text) = line :: lines) : line.head? = some c := by
  have hfrom : splitFrom [c] text = line :: lines := by
    rw [← h]
    exact (splitFrom_append_of_isInner (isInner_nil.cons hc)).symm
  exact head?_of_splitFrom (by simp) hfrom

end GoldenHarness.Line

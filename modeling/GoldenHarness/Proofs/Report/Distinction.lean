import GoldenHarness.Proofs.Text.Encoding
import GoldenHarness.Report

/-!
# What reports tell apart

A separator line stands at either end of a shown output, so it can be cancelled there, wherever else it
may occur. What is lost is whether the last line had an end. The separator lines are ASCII: around a
text they make a text, and the bytes of a text are shown as they are.
-/

namespace GoldenHarness.Report

/-! ## Outputs between separator lines -/

section Terminated

variable {α : Type} [DecidableEq α]

/-- A sequence that, unless it is empty, ends with `last`, which is added where it is missing. -/
def terminated (last : α) (xs : List α) : List α :=
  if xs ≠ [] ∧ xs.getLast? ≠ some last then xs ++ [last] else xs

end Terminated

theorem ended_eq (content : Bytes) : ended content = terminated lineFeed content := by
  unfold ended terminated
  by_cases h : content = [] ∨ content.getLast? = some lineFeed
  · rw [if_pos h, if_neg (by tauto)]
  · rw [if_neg h, if_pos (by tauto)]

theorem bracketed_eq_iff {content content' : Bytes} :
    bracketed content = bracketed content' ↔
      terminated lineFeed content = terminated lineFeed content' := by
  rw [bracketed, bracketed, List.append_left_inj, List.append_right_inj, ended_eq, ended_eq]

/-- The separator line as a text. -/
def separatorLine : List Char := "------------8<------------\n".toList

theorem separator_eq : separator = Utf8.encode separatorLine := rfl

/-- A text between separator lines. -/
def framed (text : List Char) : List Char :=
  separatorLine ++ terminated '\n' text ++ separatorLine

theorem framed_eq_iff {text text' : List Char} :
    framed text = framed text' ↔ terminated '\n' text = terminated '\n' text' := by
  rw [framed, framed, List.append_left_inj, List.append_right_inj]

theorem encode_terminated (text : List Char) :
    Utf8.encode (terminated '\n' text) = terminated lineFeed (Utf8.encode text) := by
  -- the bytes lack an end if and only if the text does, since a line feed is ASCII
  have hlacks : (Utf8.encode text ≠ [] ∧ (Utf8.encode text).getLast? ≠ some lineFeed) ↔
      (text ≠ [] ∧ text.getLast? ≠ some '\n') :=
    and_congr (not_congr Utf8.encode_eq_nil_iff) (not_congr (Utf8.getLast?_encode_iff (by decide)))
  unfold terminated
  by_cases h : text ≠ [] ∧ text.getLast? ≠ some '\n'
  · rw [if_pos h, if_pos (hlacks.mpr h), Utf8.encode_append]
    rfl
  · rw [if_neg h, if_neg (mt hlacks.mp h)]

/-- The separator lines around the bytes of a text make the bytes of a text. -/
theorem bracketed_encode (text : List Char) :
    bracketed (Utf8.encode text) = Utf8.encode (framed text) := by
  rw [bracketed, ended_eq, ← encode_terminated, framed, Utf8.encode_append, Utf8.encode_append,
    separator_eq]

/-- Between separator lines the bytes of a text are read as characters throughout. -/
theorem segments_bracketed_encode (text : List Char) :
    Utf8.segments (bracketed (Utf8.encode text)) = (framed text).map .scalar := by
  rw [bracketed_encode, Utf8.segments_encode]

/-! ## Verdicts -/

theorem renderOutcome_mismatch (label diff : String) :
    renderOutcome label (.mismatch diff) =
      label ++ ": failed (unexpected output)\n" ++ String.ofList (framed diff.toList) := by
  have hshown : Bytes.toStringLossy (bracketed (Bytes.ofString diff)) =
      String.ofList (framed diff.toList) := by
    rw [Bytes.toStringLossy, Bytes.ofString, bracketed_encode, Utf8.decodeLossy_encode]
  rw [← hshown]
  rfl

/-- The label stands in front of all the rest. -/
theorem renderOutcome_eq_append (label : String) (outcome : Outcome) :
    renderOutcome label outcome = label ++ renderOutcome "" outcome := by
  cases outcome with
  | passed | toolFailed => exact congrArg (label ++ ·) String.empty_append.symm
  | mismatch diff =>
    rw [renderOutcome_mismatch, renderOutcome_mismatch, String.empty_append, String.append_assoc]

/-- The eleventh character behind the label, the first one that is not the same for any two kinds. -/
def kindLetter : Outcome → Char
  | .passed => 'n'
  | .toolFailed _ => 'e'
  | .mismatch _ => 'u'

theorem getElem?_renderOutcome (outcome : Outcome) :
    (renderOutcome "" outcome).toList[10]? = some (kindLetter outcome) := by
  cases outcome with
  | passed =>
    show ("" ++ ": everything ok\n").toList[10]? = some 'n'
    simp
  | toolFailed code =>
    show ("" ++ ": failed (exception)\n").toList[10]? = some 'e'
    simp
  | mismatch diff =>
    rw [renderOutcome_mismatch]
    simp [kindLetter]

/-- Outcomes between which reports make no difference. -/
inductive ReadAlike : Outcome → Outcome → Prop where
  | passed : ReadAlike .passed .passed
  | toolFailed {code code'} : ReadAlike (.toolFailed code) (.toolFailed code')
  | mismatch {diff diff' : String}
    (h : terminated '\n' diff.toList = terminated '\n' diff'.toList) :
    ReadAlike (.mismatch diff) (.mismatch diff')

theorem readAlike_of_letter_eq {outcome outcome' : Outcome}
    (hletter : kindLetter outcome = kindLetter outcome')
    (h : renderOutcome "" outcome = renderOutcome "" outcome') : ReadAlike outcome outcome' := by
  cases outcome with
  | passed =>
    cases outcome' with
    | passed => exact .passed
    | toolFailed | mismatch => exact absurd hletter (by simp [kindLetter])
  | toolFailed code =>
    cases outcome' with
    | toolFailed code' => exact .toolFailed
    | passed | mismatch => exact absurd hletter (by simp [kindLetter])
  | mismatch diff =>
    cases outcome' with
    | mismatch diff' =>
      rw [renderOutcome_mismatch, renderOutcome_mismatch, String.append_right_inj] at h
      exact .mismatch (framed_eq_iff.mp (String.ofList_injective h))
    | passed | toolFailed => exact absurd hletter (by simp [kindLetter])

theorem renderOutcome_eq_iff {label : String} {outcome outcome' : Outcome} :
    renderOutcome label outcome = renderOutcome label outcome' ↔ ReadAlike outcome outcome' := by
  rw [renderOutcome_eq_append label outcome, renderOutcome_eq_append label outcome',
    String.append_right_inj]
  constructor
  · intro h
    refine readAlike_of_letter_eq ?_ h
    rw [← Option.some_inj, ← getElem?_renderOutcome, ← getElem?_renderOutcome, h]
  · intro h
    cases h with
    | passed | toolFailed => rfl
    | mismatch h => rw [renderOutcome_mismatch, renderOutcome_mismatch, framed_eq_iff.mpr h]

/-- **What reports tell apart.** Reports with one label are the same if and only if the outcomes are
both passes, both failures of the decoder, or differences that are the same once their last lines have
ends, and outputs between separator lines are the same under that condition alone. Around a difference
the separator lines leave nothing that is not a character, so all its bytes are shown as they are. -/
theorem renderOutcome_tells_apart (label : String) (outcome outcome' : Outcome)
    (content content' : Bytes) (diff : String) :
    (renderOutcome label outcome = renderOutcome label outcome' ↔ ReadAlike outcome outcome') ∧
      (bracketed content = bracketed content' ↔
        terminated lineFeed content = terminated lineFeed content') ∧
      (∀ s ∈ Utf8.segments (bracketed (Bytes.ofString diff)), ∃ c, s = .scalar c) ∧
      Bytes.ofString (renderOutcome label (.mismatch diff)) =
        Bytes.ofString (label ++ ": failed (unexpected output)\n") ++
          bracketed (Bytes.ofString diff) := by
  refine ⟨renderOutcome_eq_iff, bracketed_eq_iff, ?_, ?_⟩
  · intro s hs
    rw [Bytes.ofString, segments_bracketed_encode] at hs
    obtain ⟨c, -, rfl⟩ := List.mem_map.mp hs
    exact ⟨c, rfl⟩
  · have hframed : Bytes.ofString (String.ofList (framed diff.toList)) =
        bracketed (Bytes.ofString diff) := by
      rw [Bytes.ofString, String.toList_ofList, Bytes.ofString, bracketed_encode]
    rw [renderOutcome_mismatch, Bytes.ofString_append, hframed]

/-- An output that is a separator line itself is not shown as an empty one. -/
example : bracketed separator ≠ bracketed [] := by decide

end GoldenHarness.Report

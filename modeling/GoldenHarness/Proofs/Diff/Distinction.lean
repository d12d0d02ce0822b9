import GoldenHarness.Proofs.Diff.Golden
import GoldenHarness.Proofs.Text.Encoding

/-!
# Outputs that differ and read the same

Whether a difference shows lines is decided by the script from one text to the other: it changes
something if and only if the texts are not the same. Two outputs that differ read the same only if one
of them is not UTF-8, since the text of an output that is determines its bytes.
-/

namespace GoldenHarness

/-! ## Texts that determine their bytes -/

namespace Utf8

/-- Some bytes are UTF-8: they are the bytes of a text. -/
def IsValid (bs : Bytes) : Prop := ∃ text, bs = encode text

theorem isValid_iff {bs : Bytes} : IsValid bs ↔ (decode? bs).isSome := by
  simp only [IsValid, Option.isSome_iff_exists, decode?_eq_some_iff]

/-- UTF-8 that reads the same is the same. -/
theorem IsValid.eq_of_decodeLossy_eq {as bs : Bytes} (has : IsValid as) (hbs : IsValid bs)
    (h : decodeLossy as = decodeLossy bs) : as = bs := by
  obtain ⟨text, rfl⟩ := has
  obtain ⟨other, rfl⟩ := hbs
  rw [decodeLossy_encode, decodeLossy_encode] at h
  rw [h]

end Utf8

namespace Diff

/-! ## The script from a list to itself -/

section Self

variable {α : Type} [DecidableEq α]

theorem commonPrefix_self (as : List α) : commonPrefix as as = as.length := by
  induction as with
  | nil => rfl
  | cons a as ih => rw [commonPrefix_cons_cons, if_pos rfl, ih, List.length_cons]

/-- The search keeps all of a list that it is to lead to. -/
theorem search_self (lines : List α) : search lines lines = keepAll lines 0 0 := by
  have hnil (i j : Nat) : keepAll ([] : List α) i j = [] := rfl
  -- the common beginning is all of the list, and nothing is left to be searched
  unfold search
  rw [searchFrom]
  simp only [commonPrefix_self, List.drop_length, List.take_length]
  simp [deleteAll, insertAll, hnil]

/-- Where nothing is deleted or inserted, nothing is moved. -/
theorem settleAll_of_kept {kind : Kind} (hkind : kind ≠ .keep) {script : List (Edit α)}
    (h : ∀ e ∈ script, e.kind = .keep) : settleAll kind script = script := by
  have hcount : script.countP (·.kind = kind) = 0 := by
    rw [List.countP_eq_zero]
    intro e he
    rw [h e he, decide_eq_true_eq]
    exact hkind.symm
  rw [settleAll, hcount]
  rfl

omit [DecidableEq α] in
theorem kind_of_mem_keepAll {both : List α} {i j : Nat} {e : Edit α} (h : e ∈ keepAll both i j) :
    e.kind = .keep := by
  unfold keepAll at h
  split at h
  · cases h
  · rw [List.mem_singleton.mp h]

end Self

theorem script_self (text : List Char) : script text text = keepAll (Line.split text) 0 0 := by
  rw [script, search_self, settle, settleAll_of_kept (by decide) fun _ => kind_of_mem_keepAll,
    settleAll_of_kept (by decide) fun _ => kind_of_mem_keepAll]

/-- The script from a text to itself changes nothing, and any other script does. -/
theorem isChanged_iff_ne {expected actual : List Char} :
    (Stretch.ofScript (script expected actual)).any Stretch.isChanged ↔ expected ≠ actual := by
  refine ⟨?_, isChanged_of_ne⟩
  rintro hchanged rfl
  rw [script_self, keepAll] at hchanged
  split at hchanged
  · cases hchanged
  · cases hchanged

/-! ## Marked lines -/

theorem before_eq_after_of_unmarked {hunk : Hunk Line}
    (h : ∀ m ∈ hunk.block.lines, m.mark ≠ '-' ∧ m.mark ≠ '+') : hunk.before = hunk.after := by
  rw [← old_block, ← new_block, Block.old, Block.new]
  refine congrArg (List.map Marked.line) (List.filter_congr fun m hm => ?_)
  obtain ⟨hminus, hplus⟩ := h m hm
  simp [hminus, hplus]

/-- Where two texts differ, the hunks have a line that is deleted or inserted. -/
theorem exists_mark_of_ne {expected actual : List Char} (h : expected ≠ actual) :
    ∃ block ∈ (hunks expected actual).map Hunk.block,
      ∃ m ∈ block.lines, m.mark = '-' ∨ m.mark = '+' := by
  by_contra hnone
  -- each hunk is the same on both sides then, and with the gaps so are the texts
  have hunmarked : ∀ hunk ∈ hunks expected actual, hunk.before = hunk.after := by
    intro hunk hhunk
    refine before_eq_after_of_unmarked fun m hm => ?_
    rw [← not_or]
    exact fun hmark => hnone ⟨_, List.mem_map_of_mem hhunk, m, hm, hmark⟩
  obtain ⟨first, gaps, hcovers⟩ := covers_hunks expected actual
  have hlines : Line.split expected = Line.split actual := by
    rw [← hcovers.before_eq, ← hcovers.after_eq, List.map_congr_left hunmarked]
  apply h
  rw [← Line.flatten_split expected, hlines, Line.flatten_split]

/-! ## The three answers -/

/-- Outputs that read the same are said to differ, in so many words. -/
theorem golden_of_same_text {expected actual : Bytes} {expectedName actualName : String}
    (hne : expected ≠ actual) (h : Utf8.decodeLossy expected = Utf8.decodeLossy actual) :
    golden expected actual expectedName actualName =
      some (binaryDiffers expectedName actualName) := by
  unfold golden
  rw [if_neg hne]
  dsimp only
  rw [if_neg fun hchanged => isChanged_iff_ne.mp hchanged h]

theorem header_ne_binaryDiffers (expectedName actualName : String) (text : String) :
    s!"--- {expectedName}\n+++ {actualName}\n" ++ text ≠ binaryDiffers expectedName actualName := by
  intro h
  have hheader : s!"--- {expectedName}\n+++ {actualName}\n" =
      "--- " ++ expectedName ++ "\n+++ " ++ actualName ++ "\n" := rfl
  have hbinary : binaryDiffers expectedName actualName =
      "Binary content differs: " ++ expectedName ++ " and " ++ actualName ++ "\n" := rfl
  rw [hheader, hbinary] at h
  -- the one begins with a dash and the other with a letter
  have hhead := congrArg (fun s => s.toList.head?) h
  simp at hhead

/-- Two outputs have no difference if and only if they are the same bytes. If they are not, it is said
in so many words that they differ if and only if they read the same, which two outputs in UTF-8 never
do. Otherwise the difference is shown, with at least one line that is deleted or inserted. -/
theorem golden_distinguishes (expected actual : Bytes) (expectedName actualName : String) :
    let diff := golden expected actual expectedName actualName
    let binary := s!"Binary content differs: {expectedName} and {actualName}\n"
    let header := s!"--- {expectedName}\n+++ {actualName}\n"
    (diff = none ↔ expected = actual) ∧
      (expected ≠ actual →
        (diff = some binary ↔ Utf8.decodeLossy expected = Utf8.decodeLossy actual) ∧
        (diff ≠ some binary → ∃ text blocks,
          diff = some (header ++ String.ofList text) ∧ read? text = some blocks ∧
            ∃ block ∈ blocks, ∃ m ∈ block.lines, m.mark = '-' ∨ m.mark = '+') ∧
        (Utf8.decodeLossy expected = Utf8.decodeLossy actual →
          ¬ Utf8.IsValid expected ∨ ¬ Utf8.IsValid actual)) ∧
      (Utf8.IsValid expected → Utf8.IsValid actual → expected ≠ actual →
        diff ≠ none ∧ diff ≠ some binary) := by
  intro diff binary header
  have hbinary (hne : expected ≠ actual) :
      diff = some binary ↔ Utf8.decodeLossy expected = Utf8.decodeLossy actual := by
    refine ⟨fun hdiff => ?_, golden_of_same_text hne⟩
    by_contra htexts
    have hshown : diff = some _ := golden_of_ne htexts
    rw [hshown] at hdiff
    exact header_ne_binaryDiffers _ _ _ (Option.some.inj hdiff)
  have hinvalid (hne : expected ≠ actual)
      (htexts : Utf8.decodeLossy expected = Utf8.decodeLossy actual) :
      ¬ Utf8.IsValid expected ∨ ¬ Utf8.IsValid actual := by
    rw [← not_and_or]
    rintro ⟨hexpected, hactual⟩
    exact hne (hexpected.eq_of_decodeLossy_eq hactual htexts)
  refine ⟨golden_eq_none_iff, fun hne => ⟨hbinary hne, fun hdiff => ?_, hinvalid hne⟩, ?_⟩
  · have htexts := mt (hbinary hne).mpr hdiff
    exact ⟨_, _, golden_of_ne htexts, read?_difference _ _, exists_mark_of_ne htexts⟩
  · intro hexpected hactual hne
    refine ⟨fun hnone => hne (golden_eq_none_iff.mp hnone), fun hdiff => ?_⟩
    exact (hinvalid hne ((hbinary hne).mp hdiff)).elim (absurd hexpected) (absurd hactual)

/-- A line with one blank more at its end, and two bytes that read the same. -/
theorem golden_of_close_outputs :
    (∃ text blocks,
      golden (Bytes.ofString "a\n") (Bytes.ofString "a \n") "trace.ok" "trace.log" =
          some ("--- trace.ok\n+++ trace.log\n" ++ String.ofList text) ∧
        read? text = some blocks ∧
        ∃ block ∈ blocks, ∃ m ∈ block.lines, m.mark = '-' ∨ m.mark = '+') ∧
      golden [0xFF, 0x0A] [0xFE, 0x0A] "trace.ok" "trace.log" =
        some "Binary content differs: trace.ok and trace.log\n" := by
  constructor
  · have hne : Bytes.ofString "a\n" ≠ Bytes.ofString "a \n" := by decide
    obtain ⟨-, hrest, hvalid⟩ := golden_distinguishes (Bytes.ofString "a\n") (Bytes.ofString "a \n")
      "trace.ok" "trace.log"
    exact (hrest hne).2.1 (hvalid ⟨_, rfl⟩ ⟨_, rfl⟩ hne).2
  · obtain ⟨-, hrest, -⟩ := golden_distinguishes [0xFF, 0x0A] [0xFE, 0x0A] "trace.ok" "trace.log"
    exact (hrest (by decide)).1.mpr (by decide)

end Diff

end GoldenHarness

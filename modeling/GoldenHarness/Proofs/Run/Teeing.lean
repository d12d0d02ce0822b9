import GoldenHarness.Proofs.Run.Comparison

/-!
# What the writers hold while an output is copied

Each piece goes into the echo first, and into the sink only if the echo took all of it. So before a
piece is read both writers hold the same, which is what was read so far, and a writer that takes no
more leaves the sink behind the echo by a part of one piece at most.
-/

namespace GoldenHarness

/-! ## Chunks -/

/-- An output is read in chunks: each piece has some bytes, and no more than fit in the buffer. -/
def ToolRun.IsChunked (r : ToolRun) : Prop :=
  ∀ piece ∈ r.reads, 0 < piece.length ∧ piece.length ≤ Script.readSize

theorem Script.length_of_mem_piecesFrom {fuel : Nat} {bs piece : Bytes}
    (h : piece ∈ piecesFrom fuel bs) : 0 < piece.length ∧ piece.length ≤ readSize := by
  induction fuel generalizing bs with
  | zero => cases h
  | succ fuel ih =>
    rw [piecesFrom] at h
    split at h
    · cases h
    · next hne =>
      rcases List.mem_cons.mp h with rfl | h
      · rw [List.isEmpty_iff] at hne
        have hpos := List.length_pos_iff.mpr hne
        rw [List.length_take]
        exact ⟨Nat.lt_min.mpr ⟨by decide, hpos⟩, Nat.min_le_left _ _⟩
      · exact ih h

/-- What a scripted decoder prints is read in chunks. -/
theorem Script.isChunked_program (steps : List Step) (args : List Bytes) (fs : FileSystem) :
    (program steps args fs).IsChunked := fun _ h => length_of_mem_piecesFrom h

namespace Run

/-! ## Copying -/

/-- What two writers hold are beginnings of an output: the sink does not get ahead of the echo, and
stays behind it by at most `n` bytes. -/
structure Follows (n : Nat) (output echoed sunk : Bytes) : Prop where
  /-- What the sink holds, the echo holds. -/
  sunk_prefix : sunk <+: echoed
  /-- What the echo holds was printed. -/
  echoed_prefix : echoed <+: output
  /-- Only so much is missing in the sink. -/
  length_le : echoed.length ≤ sunk.length + n

/-- However much two writers take of a piece, they follow each other if they held the same before and
the sink takes no more of it than the echo. -/
theorem Follows.of_piece {n : Nat} {held part lesser piece : Bytes} (hlesser : lesser <+: part)
    (hpart : part <+: piece) (hpiece : piece.length ≤ n) (rest : Bytes) :
    Follows n (held ++ (piece ++ rest)) (held ++ part) (held ++ lesser) where
  sunk_prefix := (List.prefix_append_right_inj held).mpr hlesser
  echoed_prefix := (List.prefix_append_right_inj held).mpr (hpart.trans (List.prefix_append _ _))
  length_le := by
    have hle := hpart.length_le
    rw [List.length_append, List.length_append]
    omega

/-- Wherever a copy ends, the sink follows the echo, if both held the same when it began. -/
theorem follows_copyFrom {n : Nat} {pieces : List Bytes} {reads : Nat} {echo sink : Writer}
    (hheld : sink.written = echo.written) (hpieces : ∀ piece ∈ pieces, piece.length ≤ n) :
    let copied := copyFrom reads pieces echo sink
    Follows n (echo.written ++ pieces.flatten) copied.echo.written copied.sink.written := by
  -- on the pieces; before each of them both writers hold what was read so far
  induction pieces generalizing reads echo sink with
  | nil =>
    rw [copyFrom_nil, List.flatten_nil, List.append_nil]
    dsimp only
    rw [hheld]
    exact ⟨List.prefix_rfl, List.prefix_rfl, Nat.le_add_right _ _⟩
  | cons piece rest ih =>
    have hpiece := hpieces piece (List.mem_cons_self ..)
    have hechoed := echo.fitting_prefix piece
    have hsunk := sink.fitting_prefix piece
    rw [copyFrom_cons, List.flatten_cons]
    split
    · -- the echo takes a part of the piece, and the sink is not offered any of it
      dsimp only
      rw [Writer.write, ← hheld]
      have hfollows : Follows n (echo.written ++ (piece ++ rest.flatten))
          (echo.written ++ echo.fitting piece) (echo.written ++ []) :=
        .of_piece List.nil_prefix hechoed hpiece _
      rwa [List.append_nil, ← hheld] at hfollows
    next hecho =>
    rw [not_not] at hecho
    have hwritten := Writer.written_write hecho
    split
    · -- the echo takes the piece, and the sink a part of it
      dsimp only
      rw [hwritten, Writer.write, hheld]
      exact Follows.of_piece hsunk List.prefix_rfl hpiece _
    next hsink =>
    rw [not_not] at hsink
    have hboth : (sink.write piece).written = (echo.write piece).written := by
      rw [Writer.written_write hsink, hwritten, hheld]
    have hfollows := @ih (reads + 1) _ _ hboth fun p hp => hpieces p (List.mem_cons_of_mem _ hp)
    rwa [hwritten, List.append_assoc] at hfollows

/-! ## Running the decoder -/

variable {m : Machine} {fs : FileSystem} {command : Path} {args : List Bytes} {program : Program}

/-- However much the writers take, the sink follows the echo by a chunk. -/
theorem follows_tee (hfind : m.find fs command args = .ok program)
    (hchunked : (program args fs).IsChunked) (echoLimit sinkLimit : Option Nat) :
    let teed := tee m fs command args (.empty echoLimit) (.empty sinkLimit)
    Follows Script.readSize (program args fs).output teed.echo.written teed.sink.written := by
  have hfollows : Follows Script.readSize (program args fs).output _ _ :=
    @follows_copyFrom _ _ 0 (.empty echoLimit) (.empty sinkLimit) rfl
      fun piece hpiece => (hchunked piece hpiece).2
  obtain ⟨-, hechoed, hsunk, -⟩ := tee_of_find hfind (.empty echoLimit) (.empty sinkLimit)
  dsimp only
  rw [hechoed, hsunk]
  exact hfollows

/-- A decoder whose output fits in both writers ends as it will, and both hold its output. -/
theorem tee_of_room {echoLimit sinkLimit : Option Nat} (hfind : m.find fs command args = .ok program)
    (hroom : (Writer.empty echoLimit).accepts (program args fs).output ∧
      (Writer.empty sinkLimit).accepts (program args fs).output) :
    let teed := tee m fs command args (.empty echoLimit) (.empty sinkLimit)
    teed.result = .ok (program args fs).status ∧ teed.echo.written = (program args fs).output ∧
      teed.sink.written = (program args fs).output := by
  obtain ⟨hresult, hechoed, hsunk, -⟩ := tee_of_accepts hfind hroom.1 hroom.2
  refine ⟨hresult, ?_, ?_⟩
  · rw [hechoed, Writer.written_write hroom.1]
    rfl
  · rw [hsunk, Writer.written_write hroom.2]
    rfl

theorem tee_of_no_room {echoLimit sinkLimit : Option Nat}
    (hfind : m.find fs command args = .ok program)
    (hroom : ¬ ((Writer.empty echoLimit).accepts (program args fs).output ∧
      (Writer.empty sinkLimit).accepts (program args fs).output)) :
    (tee m fs command args (.empty echoLimit) (.empty sinkLimit)).result = .error writerFull := by
  obtain ⟨hresult, -⟩ := tee_of_find hfind (.empty echoLimit) (.empty sinkLimit)
  rwa [if_neg fun hcopy => hroom ((copy_isComplete_iff _ _ _).mp hcopy)] at hresult

/-- A decoder that cannot be started is an error that names it, and neither writer gets a byte. One
that was started succeeds if and only if both writers have room for all of its output; then it ends as
it will, and both writers hold the output, in whatever chunks it was read. Otherwise there is an I/O
error, and the writers hold beginnings of the output that are at most one chunk apart. -/
theorem tee_ok_iff_room (m : Machine) (fs : FileSystem) (command : Path) (args : List Bytes)
    (echoLimit sinkLimit : Option Nat) :
    let teed := tee m fs command args (.empty echoLimit) (.empty sinkLimit)
    (∀ cause, m.find fs command args = .error cause →
      teed.result = .error (.spawn command cause) ∧
        (RunError.spawn command cause).message =
          s!"Failed to start trace tool '{Path.display command}': {cause.message}" ∧
        teed.echo.written = [] ∧ teed.sink.written = []) ∧
      ∀ program, m.find fs command args = .ok program → (program args fs).IsChunked →
        let run := program args fs
        ((∃ status, teed.result = .ok status) ↔
            (∀ limit ∈ echoLimit, run.output.length ≤ limit) ∧
              ∀ limit ∈ sinkLimit, run.output.length ≤ limit) ∧
          (∀ status, teed.result = .ok status →
            status = run.status ∧ teed.echo.written = run.output ∧ teed.sink.written = run.output) ∧
          ∀ e, teed.result = .error e →
            (∃ cause, e = .io cause) ∧
              Follows Script.readSize run.output teed.echo.written teed.sink.written := by
  intro teed
  constructor
  · intro cause hfind
    obtain ⟨hresult, hechoed, hsunk, -⟩ :=
      tee_of_find_error hfind (.empty echoLimit) (.empty sinkLimit)
    exact ⟨hresult, rfl, by rw [hechoed, Writer.written_empty], by rw [hsunk, Writer.written_empty]⟩
  · intro program hfind hchunked run
    rw [← Writer.accepts_empty_iff, ← Writer.accepts_empty_iff]
    by_cases hroom : (Writer.empty echoLimit).accepts run.output ∧
        (Writer.empty sinkLimit).accepts run.output
    · obtain ⟨hresult, hwritten⟩ := tee_of_room hfind hroom
      refine ⟨iff_of_true ⟨_, hresult⟩ hroom, fun status hstatus => ?_, fun e he => ?_⟩
      · exact ⟨Except.ok.inj (hstatus.symm.trans hresult), hwritten⟩
      · exact nomatch hresult.symm.trans he
    · have hresult := tee_of_no_room hfind hroom
      refine ⟨iff_of_false ?_ hroom, fun status hstatus => ?_, fun e he => ?_⟩
      · rintro ⟨status, hstatus⟩
        exact nomatch hresult.symm.trans hstatus
      · exact nomatch hresult.symm.trans hstatus
      · obtain rfl : writerFull = e := Except.error.inj (hresult.symm.trans he)
        exact ⟨⟨_, rfl⟩, follows_tee hfind hchunked echoLimit sinkLimit⟩

/-- A decoder that is killed after it printed two bytes: it ends as it will if the echo takes two, and
fails if it takes one. -/
theorem tee_of_killed_decoder :
    let steps := [Script.Step.print (Bytes.ofString "ab"), .kill 9]
    let teed (limit : Nat) := tee (Sample.machine steps) (Sample.files "") (Bytes.ofString "/tool") []
      (.empty (some limit)) (.empty none)
    (Script.program steps [] (Sample.files "")).IsChunked ∧
      (teed 2).result = .ok (.signalled 9) ∧ (teed 2).sink.written = Bytes.ofString "ab" ∧
      ∃ e, (teed 1).result = .error e ∧
        Follows Script.readSize (Bytes.ofString "ab") (teed 1).echo.written (teed 1).sink.written := by
  intro steps teed
  have hchunked := Script.isChunked_program steps [] (Sample.files "")
  have hruns (limit : Nat) :=
    (tee_ok_iff_room (Sample.machine steps) (Sample.files "") (Bytes.ofString "/tool") []
      (some limit) none).2 (Script.program steps) rfl hchunked
  obtain ⟨hiff, hok, -⟩ := hruns 2
  obtain ⟨hiff', -, herror⟩ := hruns 1
  obtain ⟨status, hstatus⟩ := hiff.mpr ⟨by decide, nofun⟩
  obtain ⟨rfl, -, hsunk⟩ := hok status hstatus
  refine ⟨hchunked, hstatus, hsunk, ?_⟩
  cases hresult : (teed 1).result with
  | ok status => exact absurd (hiff'.mp ⟨status, hresult⟩).1 (by decide)
  | error e => exact ⟨e, rfl, (herror e hresult).2⟩

end Run

end GoldenHarness

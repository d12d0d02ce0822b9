import GoldenHarness.Config.Basic
import GoldenHarness.Proofs.Path.Steps
import Mathlib.Data.List.DropRight

/-!
# Building a configuration

A configuration is built step by step: a step starts over, or sets one thing. Setting the golden file
moves the scratch directory along, so what becomes of the scratch directory depends on which of the two
was set last. All else is what was set last since the last start.
-/

namespace GoldenHarness.Config

/-- A step in building a configuration. -/
inductive Step where
  /-- Starts over with the standard configuration. -/
  | standard
  /-- Starts over with a decoder and a capture. -/
  | ofCapture (tool capture : Path)
  /-- Sets the golden file. -/
  | golden (path : Path)
  /-- Sets the decoder's first argument. -/
  | subcommand (argument : String)
  /-- Sets the scratch directory. -/
  | scratchDir (path : Path)
deriving DecidableEq, Repr

namespace Step

/-- The configuration after a step. -/
def apply (c : Config) : Step → Config
  | standard => .standard
  | ofCapture tool capture => .ofCapture tool capture
  | golden path => c.withGolden path
  | subcommand argument => c.withSubcommand argument
  | scratchDir path => c.withScratchDir path

/-- The decoder and the capture that a step starts over with. -/
def start? : Step → Option (Path × Path)
  | standard => some (defaultTool, defaultCapture)
  | ofCapture tool capture => some (tool, capture)
  | _ => none

/-- The golden file that a step sets. -/
def golden? : Step → Option Path
  | golden path => some path
  | _ => none

/-- The first argument that a step sets. -/
def subcommand? : Step → Option String
  | subcommand argument => some argument
  | _ => none

/-- The scratch directory that a step sets. -/
def scratchDir? : Step → Option Path
  | scratchDir path => some path
  | _ => none

/-- The last of what some steps set. -/
def last? {α : Type} (set? : Step → Option α) (steps : List Step) : Option α :=
  (steps.filterMap set?).getLast?

/-- The last scratch directory that is set after all golden files. -/
def ownScratchDir? (steps : List Step) : Option Path :=
  last? scratchDir? (steps.rtakeWhile fun s => s.golden?.isNone)

theorem last?_concat {α : Type} (set? : Step → Option α) (steps : List Step) (s : Step) :
    last? set? (steps ++ [s]) = (set? s).or (last? set? steps) := by
  rw [last?, last?, List.filterMap_append, List.getLast?_append]
  cases h : set? s <;> simp [h]

theorem ownScratchDir?_concat (steps : List Step) (s : Step) :
    ownScratchDir? (steps ++ [s]) =
      if s.golden?.isNone then s.scratchDir?.or (ownScratchDir? steps) else none := by
  rw [ownScratchDir?, List.rtakeWhile_concat]
  split
  · exact last?_concat _ _ s
  · rfl

end Step

/-- The configuration after some steps. -/
def build (c : Config) (steps : List Step) : Config := steps.foldl Step.apply c

/-- A configuration is what some steps make of the one for a decoder and a capture, where none of them
starts over. -/
structure Built (tool capture : Path) (steps : List Step) (c : Config) : Prop where
  tool_eq : c.tool = tool
  capture_eq : c.capture = capture
  subcommand_eq : c.subcommand = (Step.last? Step.subcommand? steps).getD defaultSubcommand
  golden_eq : c.golden = (Step.last? Step.golden? steps).getD (goldenPathFor capture)
  scratchDir_eq : c.scratchDir = (Step.ownScratchDir? steps).getD (Path.directory c.golden)

theorem built_start {s : Step} {tool capture : Path} (h : s.start? = some (tool, capture))
    (c : Config) : Built tool capture [] (s.apply c) := by
  cases s with
  | standard =>
    cases h
    exact ⟨rfl, rfl, rfl, rfl, rfl⟩
  | ofCapture =>
    cases h
    exact ⟨rfl, rfl, rfl, rfl, rfl⟩
  | golden | subcommand | scratchDir => cases h

theorem Built.step {c : Config} {tool capture : Path} {steps : List Step} {s : Step}
    (h : Built tool capture steps c) (hs : s.start? = none) :
    Built tool capture (steps ++ [s]) (s.apply c) := by
  obtain ⟨htool, hcapture, hsubcommand, hgolden, hscratch⟩ := h
  have hlast {α : Type} (set? : Step → Option α) := Step.last?_concat set? steps s
  have hown := Step.ownScratchDir?_concat steps s
  cases s with
  | standard | ofCapture => cases hs
  | golden path =>
    refine ⟨htool, hcapture, ?_, ?_, ?_⟩
    · rw [hlast]
      exact hsubcommand
    · rw [hlast]
      rfl
    · rw [hown]
      rfl
  | subcommand argument =>
    refine ⟨htool, hcapture, ?_, ?_, ?_⟩
    · rw [hlast]
      rfl
    · rw [hlast]
      exact hgolden
    · rw [hown]
      exact hscratch
  | scratchDir path =>
    refine ⟨htool, hcapture, ?_, ?_, ?_⟩
    · rw [hlast]
      exact hsubcommand
    · rw [hlast]
      exact hgolden
    · rw [hown]
      rfl

/-- What some steps have built since the last of them that starts over. -/
theorem exists_built {first : Step} (hfirst : first.start?.isSome) (c : Config) (more : List Step) :
    ∃ earlier start later tool capture,
      first :: more = earlier ++ start :: later ∧ start.start? = some (tool, capture) ∧
        (∀ s ∈ later, s.start? = none) ∧ Built tool capture later (build c (first :: more)) := by
  -- on the steps, from the last one back
  induction more using List.reverseRecOn with
  | nil =>
    obtain ⟨⟨tool, capture⟩, hstart⟩ := Option.isSome_iff_exists.mp hfirst
    exact ⟨[], first, [], tool, capture, rfl, hstart, nofun, built_start hstart c⟩
  | append_singleton more s ih =>
    have hbuild : build c (first :: (more ++ [s])) = s.apply (build c (first :: more)) := by
      rw [build, ← List.cons_append, List.foldl_concat]
      rfl
    rw [hbuild]
    cases hs : s.start? with
    | some start =>
      obtain ⟨tool, capture⟩ := start
      exact ⟨first :: more, s, [], tool, capture, rfl, hs, nofun, built_start hs _⟩
    | none =>
      obtain ⟨earlier, start, later, tool, capture, hsplit, hstart, hlater, hbuilt⟩ := ih
      refine ⟨earlier, start, later ++ [s], tool, capture, ?_, hstart, ?_, hbuilt.step hs⟩
      · rw [← List.cons_append, hsplit, List.append_assoc]
        rfl
      · intro t ht
        rcases List.mem_append.mp ht with ht | ht
        · exact hlater t ht
        · rw [List.mem_singleton.mp ht]
          exact hs

/-- **A configuration is what was set last.** Any steps, the first of which starts over, can be cut at
the last one that does, and what is built then follows from the steps after that one: the golden file
and the decoder's first argument are those set last, if any were. So is the scratch directory, unless a
golden file is set after it: then, and also if none is set, it is the directory of the golden file. A
scratch directory that comes from the golden file is not empty, and the golden file's name, taken from
there, leads to the golden file: it has the same components, up to a dot at the beginning. -/
theorem build_follows_last_steps {first : Step} (hfirst : first.start?.isSome) (c : Config)
    (more : List Step) :
    let built := build c (first :: more)
    ∃ earlier start later tool capture,
      first :: more = earlier ++ start :: later ∧ start.start? = some (tool, capture) ∧
      (∀ s ∈ later, s.start? = none) ∧
      (built.tool = tool ∧ built.capture = capture ∧ built.label = (ofCapture tool capture).label) ∧
      built.golden = (Step.last? Step.golden? later).getD (capture ++ Bytes.ofString ".ok") ∧
      built.toolArgs =
        [Bytes.ofString ((Step.last? Step.subcommand? later).getD defaultSubcommand),
          Bytes.ofString "-f", capture] ∧
      (∀ own, Step.ownScratchDir? later = some own → built.scratchDir = own) ∧
      (Step.ownScratchDir? later = none →
        built.scratchDir =
          (match Path.parent? built.golden with
          | some [] | none => Path.dot
          | some parent => parent) ∧
        built.scratchDir ≠ [] ∧
        ∀ name, Path.fileName? built.golden = some name →
          let joined := Path.components (Path.join built.scratchDir name)
          joined = Path.components built.golden ∨
            joined = .current :: Path.components built.golden) := by
  intro built
  obtain ⟨earlier, start, later, tool, capture, hsplit, hstart, hlater, hbuilt⟩ :=
    exists_built hfirst c more
  obtain ⟨htool, hcapture, hsubcommand, hgolden, hscratch⟩ : Built tool capture later built := hbuilt
  refine ⟨earlier, start, later, tool, capture, hsplit, hstart, hlater, ⟨htool, hcapture, ?_⟩,
    hgolden, ?_, ?_, ?_⟩
  · rw [label, hcapture]
    rfl
  · rw [toolArgs, hsubcommand, hcapture]
  · intro own hown
    rw [hscratch, hown]
    rfl
  · intro hnone
    have hderived : built.scratchDir = Path.directory built.golden := by
      rw [hscratch, hnone]
      rfl
    rw [hderived]
    exact ⟨rfl, Path.directory_ne_nil _, fun _ => Path.components_join_directory⟩

/-- A golden file that is set after the scratch directory moves it, also where its path ends with more
than its name. -/
theorem build_of_golden_set_last :
    let later : List Step := [.scratchDir (Bytes.ofString "tmp"), .golden (Bytes.ofString "x//y.ok/.")]
    let first : Step := .ofCapture (Bytes.ofString "tool") (Bytes.ofString "trace")
    let built := build .standard (first :: later)
    first.start?.isSome ∧ built.scratchDir = Bytes.ofString "x" ∧
      (Path.components (Path.join built.scratchDir (Bytes.ofString "y.ok")) =
          Path.components built.golden ∨
        Path.components (Path.join built.scratchDir (Bytes.ofString "y.ok")) =
          .current :: Path.components built.golden) := by
  intro later first built
  obtain ⟨earlier, start, later', tool, capture, hsplit, hstart, hlater, -, hgolden, -, -, hderived⟩ :=
    @build_follows_last_steps first rfl .standard later
  -- no step but the first one starts over
  have hcut : later = later' := by
    cases earlier with
    | nil => exact (List.cons.inj hsplit).2
    | cons e earlier =>
      have hmem : start ∈ later := by
        rw [(List.cons.inj hsplit).2]
        exact List.mem_append_right earlier List.mem_cons_self
      rcases List.mem_cons.mp hmem with rfl | hmem
      · cases hstart
      · rw [List.mem_singleton.mp hmem] at hstart
        cases hstart
  subst hcut
  have hgolden : built.golden = Bytes.ofString "x//y.ok/." := hgolden
  obtain ⟨hscratch, -, hjoin⟩ := hderived (by decide)
  rw [hgolden] at hscratch hjoin
  refine ⟨rfl, hscratch.trans (by decide), ?_⟩
  rw [hgolden]
  exact hjoin _ (by decide)

end GoldenHarness.Config

import GoldenHarness.Config.Resolve
import GoldenHarness.Proofs.CommandLine.Grammar

/-!
# Where a configuration comes from

The settings of a run have four sources: the options of the command line, environment variables, the
configuration file, and the rules for what is set nowhere. Each setting is taken from the highest
source that has it. Two of the rules look at other settings: the golden file goes with the capture,
and the scratch directory with the golden file, wherever those came from.
-/

namespace GoldenHarness.Config

open CommandLine

/-! ## The configuration file -/

/-- A path of a configuration file, taken from the directory of that file if it is relative. -/
def fromDirectory (directory p : Path) : Path :=
  if Path.isAbsolute p then p else Path.join directory p

/-- The decoder of a configuration file. A relative path with one component or none is the name of a
program, and stays as it is. -/
def toolFromDirectory (directory p : Path) : Path :=
  if (Path.components p).length ≤ 1 then p else fromDirectory directory p

/-- What is set by a configuration file, if one is named: what its text sets, with relative paths taken
from the directory that the file is in. -/
inductive Consulted (fs : FileSystem) : Option Path → ConfigFile → Prop where
  /-- No configuration file is named. -/
  | unnamed : Consulted fs none .empty
  /-- The file that is named can be read, is UTF-8 and has no fault. -/
  | named {path directory : Path} {bytes : Bytes} {text : List Char} {written : ConfigFile}
      (hread : fs.read path = .ok bytes) (hdecode : Utf8.decode? bytes = some text)
      (hwritten : ConfigFile.ofText text = .ok written)
      (hdirectory : directory = (Path.parent? path).getD Path.dot) :
      Consulted fs (some path)
        { tool := written.tool.map (toolFromDirectory directory)
          subcommand := written.subcommand
          capture := written.capture.map (fromDirectory directory)
          golden := written.golden.map (fromDirectory directory)
          scratchDir := written.scratchDir.map (fromDirectory directory) }

theorem fromDirectory_eq_rebase (directory : Path) :
    fromDirectory directory = ConfigFile.rebase directory := by
  funext p
  rw [fromDirectory, ConfigFile.rebase, Path.join]
  by_cases h : Path.isAbsolute p <;> simp [h]

theorem toolFromDirectory_eq_rebaseTool (directory : Path) :
    toolFromDirectory directory = ConfigFile.rebaseTool directory := by
  funext p
  rw [toolFromDirectory, ConfigFile.rebaseTool, fromDirectory_eq_rebase]
  by_cases h : (Path.components p).length ≤ 1
  · rw [if_pos h, if_neg (Nat.not_lt.mpr h)]
  · rw [if_neg h, if_pos (Nat.lt_of_not_le h)]

theorem consulted_some_iff {fs : FileSystem} {path : Path} {file : ConfigFile} :
    Consulted fs (some path) file ↔ ConfigFile.load fs path = .ok file := by
  constructor
  · intro h
    cases h with
    | named hread hdecode hwritten hdirectory =>
      subst hdirectory
      rw [fromDirectory_eq_rebase, toolFromDirectory_eq_rebaseTool, ConfigFile.load, hread]
      dsimp only
      rw [hdecode]
      dsimp only
      rw [hwritten]
      rfl
  · intro h
    unfold ConfigFile.load at h
    split at h
    · cases h
    · next bytes hread =>
      split at h
      · cases h
      · next text hdecode =>
        split at h
        · cases h
        · next written hwritten =>
          cases h
          have hconsulted := Consulted.named hread hdecode hwritten rfl
          rwa [fromDirectory_eq_rebase, toolFromDirectory_eq_rebaseTool] at hconsulted

/-! ## Layers -/

/-- Each setting of a configuration is that of the highest source that has it. Paths of the command line
and of the environment are taken as they are. -/
structure IsLayered (flag exported : ValueOption → Option Path) (file : ConfigFile) (c : Config) :
    Prop where
  /-- The decoder. -/
  tool : c.tool = (((flag .tool).or (exported .tool)).or file.tool).getD defaultTool
  /-- The capture. -/
  capture : c.capture = (((flag .capture).or (exported .capture)).or file.capture).getD defaultCapture
  /-- The golden file, which otherwise goes with the capture. -/
  golden : c.golden = (((flag .golden).or (exported .golden)).or file.golden).getD
    (c.capture ++ Bytes.ofString ".ok")
  /-- The decoder's first argument. -/
  subcommand : c.subcommand = file.subcommand.getD defaultSubcommand
  /-- The scratch directory, which otherwise is the directory of the golden file. -/
  scratchDir : c.scratchDir = file.scratchDir.getD
    (match Path.parent? c.golden with
      | some [] | none => Path.dot
      | some parent => parent)

theorem IsLayered.unique {flag exported : ValueOption → Option Path} {file : ConfigFile}
    {c c' : Config} (h : IsLayered flag exported file c) (h' : IsLayered flag exported file c') :
    c = c' := by
  obtain ⟨tool, subcommand, capture, golden, scratchDir⟩ := c
  obtain ⟨tool', subcommand', capture', golden', scratchDir'⟩ := c'
  obtain rfl : tool = tool' := h.tool.trans h'.tool.symm
  obtain rfl : capture = capture' := h.capture.trans h'.capture.symm
  obtain rfl : golden = golden' := h.golden.trans h'.golden.symm
  obtain rfl : subcommand = subcommand' := h.subcommand.trans h'.subcommand.symm
  obtain rfl : scratchDir = scratchDir' := h.scratchDir.trans h'.scratchDir.symm
  rfl

/-- All settings at once. Setting the golden file moves the scratch directory along, so it matters that
the scratch directory is set last. -/
theorem layer_eq (file : ConfigFile) (s : Settings) :
    let capture := (s.capture.or file.capture).getD defaultCapture
    let golden := (s.golden.or file.golden).getD (goldenPathFor capture)
    layer file s =
      { tool := (s.tool.or file.tool).getD defaultTool
        subcommand := file.subcommand.getD defaultSubcommand
        capture
        golden
        scratchDir := file.scratchDir.getD (Path.directory golden) } := by
  unfold layer
  cases s.golden.or file.golden <;> cases file.subcommand <;> cases file.scratchDir <;> rfl

theorem isLayered_layer {flag exported : ValueOption → Option Path} {s : Settings}
    (h : ∀ o, s.get o = (flag o).or (exported o)) (file : ConfigFile) :
    IsLayered flag exported file (layer file s) := by
  have htool : s.tool = (flag .tool).or (exported .tool) := h .tool
  have hcapture : s.capture = (flag .capture).or (exported .capture) := h .capture
  have hgolden : s.golden = (flag .golden).or (exported .golden) := h .golden
  rw [layer_eq, htool, hcapture, hgolden]
  exact ⟨rfl, rfl, rfl, rfl, rfl⟩

theorem isLayered_iff {flag exported : ValueOption → Option Path} {s : Settings}
    (h : ∀ o, s.get o = (flag o).or (exported o)) (file : ConfigFile) (c : Config) :
    IsLayered flag exported file c ↔ c = layer file s :=
  ⟨fun hc => hc.unique (isLayered_layer h file), fun hc => hc ▸ isLayered_layer h file⟩

/-! ## Resolving -/

section Resolving

variable {fs : FileSystem} {s : Settings}

theorem resolve_eq_error_iff {e : ConfigError} :
    resolve fs s = .error e ↔ ∃ path, s.config = some path ∧ ConfigFile.load fs path = .error e := by
  unfold resolve
  cases s.config with
  | none => simp
  | some path => cases hload : ConfigFile.load fs path <;> simp [hload]

theorem resolve_eq_ok_iff {c : Config} :
    resolve fs s = .ok c ↔ ∃ file, Consulted fs s.config file ∧ c = layer file s := by
  unfold resolve
  cases s.config with
  | none =>
    constructor
    · intro h
      cases h
      exact ⟨_, .unnamed, rfl⟩
    · rintro ⟨file, hconsulted, rfl⟩
      cases hconsulted
      rfl
  | some path =>
    simp only [consulted_some_iff]
    cases hload : ConfigFile.load fs path <;> simp [eq_comm]

theorem get_settingsOf (items : List Item) (env : Environment) (o : ValueOption) :
    (settingsOf items env).get o =
      (valuesFor o (requested items)).head?.or (env.lookup o.envVariable) := by
  rw [settingsOf, Settings.get_completed, Settings.get_tally]

/-- **Where the settings of a run come from.** The words of a command line that is accepted are those of
some items. However the words are taken as items, each setting of the configuration is that of the
highest source that has it; of the configuration files that may be named, the one on the command line
is consulted. There is no configuration exactly if that file cannot be loaded. -/
theorem resolve_takes_highest_source {words : List Bytes} {env : Environment}
    (h : parse words env = .run s) (fs : FileSystem) :
    (∃ items isEnded, (∀ i ∈ items, Item.IsProper i) ∧ words = written items isEnded) ∧
    ∀ items isEnded, (∀ i ∈ items, Item.IsProper i) → words = written items isEnded →
      let flag := fun o => (valuesFor o (requested items)).head?
      let exported := fun o : ValueOption => env.lookup o.envVariable
      let named := (flag .config).or (exported .config)
      (∀ c, resolve fs s = .ok c ↔
        ∃ file, Consulted fs named file ∧ IsLayered flag exported file c) ∧
      ∀ e, resolve fs s = .error e ↔
        ∃ path, named = some path ∧ ConfigFile.load fs path = .error e := by
  refine ⟨exists_items_of_run h, fun items isEnded hitems hwords => ?_⟩
  intro flag exported named
  obtain ⟨-, -, hsettings⟩ := (parse_written_iff hitems isEnded env s).mp (hwords ▸ h)
  have hget (o : ValueOption) : s.get o = (flag o).or (exported o) := by
    rw [hsettings, get_settingsOf]
  have hnamed : s.config = named := hget .config
  refine ⟨fun c => ?_, fun e => ?_⟩
  · simp only [resolve_eq_ok_iff, hnamed, isLayered_iff hget]
  · rw [resolve_eq_error_iff, hnamed]

end Resolving

/-- The decoder comes from the file, the capture from the environment, the golden file from the command
line, and the scratch directory follows the golden file. -/
theorem resolve_takes_from_all_sources :
    let env : Environment := [("TRACE_GOLDEN_CAPTURE", Bytes.ofString "env.pcap"),
      ("TRACE_GOLDEN_CONFIG", Bytes.ofString "other.toml")]
    let words := ["--config=conf/h.toml", "--golden", "g/x.ok"].map Bytes.ofString
    let fs : FileSystem :=
      { workingDirectory := [Bytes.ofString "conf"]
        entries := [([Bytes.ofString "conf", Bytes.ofString "conf"], .directory),
          ([Bytes.ofString "conf", Bytes.ofString "conf", Bytes.ofString "h.toml"],
            .file (Bytes.ofString "capture = \"f.pcap\"\ntool = \"bin/dec\"\n") false)] }
    ∃ s, parse words env = .run s ∧
      resolve fs s = .ok
        { tool := Bytes.ofString "conf/bin/dec"
          subcommand := "gsmtap-pyshark-pcap"
          capture := Bytes.ofString "env.pcap"
          golden := Bytes.ofString "g/x.ok"
          scratchDir := Bytes.ofString "g" } := by
  intro env words fs
  let settings : Settings :=
    ⟨false, some (Bytes.ofString "conf/h.toml"), none, some (Bytes.ofString "env.pcap"),
      some (Bytes.ofString "g/x.ok"), 0⟩
  let written : ConfigFile :=
    ⟨some (Bytes.ofString "bin/dec"), none, some (Bytes.ofString "f.pcap"), none, none⟩
  let text := "capture = \"f.pcap\"\ntool = \"bin/dec\"\n".toList
  have hparse : parse words env = .run settings := by decide
  have hread : fs.read (Bytes.ofString "conf/h.toml") = .ok (Utf8.encode text) := by decide
  have hdecode : Utf8.decode? (Utf8.encode text) = some text := by decide
  have hdocument : Toml.document? text = some
      [(⟨"capture".toList, ⟨36, 29⟩⟩, ⟨26, 18⟩, .string "f.pcap".toList),
        (⟨"tool".toList, ⟨17, 13⟩⟩, ⟨10, 1⟩, .string "bin/dec".toList)] := rfl
  have hwritten : ConfigFile.ofText text = .ok written := by
    rw [ConfigFile.ofText, hdocument]
    dsimp only
    rw [ConfigFile.inOrder, List.mergeSort_of_pairwise (by decide)]
    decide
  have hproper : ∀ i ∈ [Item.joined .config (Bytes.ofString "conf/h.toml"),
      .separate .golden (Bytes.ofString "g/x.ok")], i.IsProper := by decide
  obtain ⟨hresolve, -⟩ := (resolve_takes_highest_source hparse fs).2 _ false hproper (by decide)
  refine ⟨settings, hparse, (hresolve _).mpr ⟨_, .named hread hdecode hwritten rfl, ?_⟩⟩
  constructor <;> decide

end GoldenHarness.Config

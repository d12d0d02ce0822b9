import GoldenHarness.Proofs.Config.Loading
import GoldenHarness.Proofs.FileSystem.View

/-!
# The name of a configuration file

A configuration file can be named by its path from the working directory or by the path that is taken
from this directory. Whichever is given, the file is the same and so are the files that it denotes,
unless the longer of the paths is too long to be followed at all.
-/

namespace GoldenHarness.ConfigFile

/-! ## Values that denote the same file -/

/-- A path is that of a file which another path denotes from a directory. -/
structure Respells (dir p q : Path) : Prop where
  /-- The path has the components of the other one when that is taken from the directory. -/
  components_eq : Path.components p = Path.components (Path.join dir q)
  /-- An absolute path is left as it is. -/
  eq_of_isAbsolute : Path.isAbsolute q → p = q

/-- Two decoders are the same bare name, or both have a directory and denote the same file. -/
def RespellsTool (dir p q : Path) : Prop :=
  (Path.components q).length ≤ 1 ∧ p = q ∨
    1 < (Path.components p).length ∧ 1 < (Path.components q).length ∧ Respells dir p q

/-- Two configurations set the same keys, to the same values seen from a directory. -/
structure Agrees (dir : Path) (f g : ConfigFile) : Prop where
  /-- The decoder. -/
  tool : Option.Rel (RespellsTool dir) f.tool g.tool
  /-- The decoder's first argument. -/
  subcommand : f.subcommand = g.subcommand
  /-- The capture. -/
  capture : Option.Rel (Respells dir) f.capture g.capture
  /-- The golden file. -/
  golden : Option.Rel (Respells dir) f.golden g.golden
  /-- The directory for the transient file. -/
  scratchDir : Option.Rel (Respells dir) f.scratchDir g.scratchDir

variable {dir base base' p : Path}

/-- One base denotes the directory that the other one denotes from `dir`. -/
structure IsBase (dir base base' : Path) : Prop where
  /-- The first base is absolute. -/
  isAbsolute : Path.isAbsolute base
  /-- The other one is relative. -/
  isRelative : ¬ Path.isAbsolute base'
  /-- The steps to the first base are those to `dir` and then those to the other one. -/
  steps_eq : Path.steps base = Path.steps dir ++ Path.steps base'

theorem respells_rebase (hdir : Path.isAbsolute dir) (h : IsBase dir base base') (w : Path) :
    Respells dir (rebase base w) (rebase base' w) := by
  have hne := Path.ne_nil_of_isAbsolute hdir
  have hne' := Path.ne_nil_of_isAbsolute h.isAbsolute
  by_cases hw : Path.isAbsolute w
  · have hsame (base : Path) : rebase base w = w := by rw [rebase, Path.join, if_pos hw]
    refine ⟨?_, fun _ => ?_⟩
    · rw [hsame, hsame, Path.join, if_pos hw]
    · rw [hsame, hsame]
  · have hrelative : ¬ Path.isAbsolute (Path.join base' w) := by
      rw [Path.isAbsolute_join_iff]
      exact not_or.mpr ⟨h.isRelative, hw⟩
    refine ⟨?_, fun habsolute => absurd habsolute hrelative⟩
    calc Path.components (rebase base w)
        = Path.components base ++ Path.steps w := Path.components_join hne' hw
      _ = .root :: (Path.steps dir ++ Path.steps base') ++ Path.steps w := by
          rw [Path.components_of_isAbsolute h.isAbsolute, h.steps_eq]
      _ = Path.components dir ++ (Path.steps base' ++ Path.steps w) := by
          rw [Path.components_of_isAbsolute hdir, List.cons_append, List.cons_append,
            List.append_assoc]
      _ = Path.components (Path.join dir (rebase base' w)) := by
          rw [rebase, Path.components_join hne hrelative, Path.steps_join hw]

theorem respellsTool_rebaseTool (hdir : Path.isAbsolute dir) (h : IsBase dir base base') (w : Path) :
    RespellsTool dir (rebaseTool base w) (rebaseTool base' w) := by
  unfold rebaseTool
  by_cases hw : 1 < (Path.components w).length
  · rw [if_pos hw, if_pos hw]
    exact Or.inr ⟨Path.one_lt_length_components_join hw base,
      Path.one_lt_length_components_join hw base', respells_rebase hdir h w⟩
  · rw [if_neg hw, if_neg hw]
    exact Or.inl ⟨Nat.le_of_not_lt hw, rfl⟩

theorem agrees_relativeTo (hdir : Path.isAbsolute dir) (h : IsBase dir base base') (written : ConfigFile) :
    Agrees dir (written.relativeTo base) (written.relativeTo base') := by
  have hmap {R : Path → Path → Prop} {f f' : Path → Path} (hR : ∀ w, R (f w) (f' w))
      (set : Option Path) : Option.Rel R (set.map f) (set.map f') := by
    cases set with
    | none => exact .none
    | some w => exact .some (hR w)
  have hrebase := hmap (respells_rebase hdir h)
  exact ⟨hmap (respellsTool_rebaseTool hdir h) _, rfl, hrebase _, hrebase _, hrebase _⟩

/-! ## Both names of a file -/

variable {fs fs' : FileSystem}

/-- What a file denotes is taken from the same directory, whichever way the file is named. -/
theorem isBase_of_steps (hdir : Path.isAbsolute dir) (hp : ¬ Path.isAbsolute p)
    (hsteps : Path.steps p ≠ []) : IsBase dir (ConfigFile.base (Path.join dir p)) (ConfigFile.base p) := by
  have hjoin := Path.steps_join hp dir
  obtain ⟨parent', hparent'⟩ := Path.exists_parent hsteps
  obtain ⟨parent, hparent⟩ : ∃ parent, Path.parent? (Path.join dir p) = some parent := by
    refine Path.exists_parent fun hnil => hsteps ?_
    rw [hjoin] at hnil
    exact (List.append_eq_nil_iff.mp hnil).2
  -- both parents lack the last step only, and that is a step of the relative path
  rw [ConfigFile.base, ConfigFile.base, hparent, hparent', Option.getD_some, Option.getD_some]
  refine ⟨?_, ?_, ?_⟩
  · exact (Path.isAbsolute_parent_iff hparent).mpr (Path.isAbsolute_join hdir p)
  · exact fun h => hp ((Path.isAbsolute_parent_iff hparent').mp h)
  · rw [Path.steps_of_parent? hparent, Path.steps_of_parent? hparent', hjoin,
      List.dropLast_append_of_ne_nil hsteps]

/-- **The name of a configuration file does not matter.** With the path that is taken from the working
directory, the file can be loaded if it can be loaded with the relative path and the path is not too
long. Both ways it denotes the same files. -/
theorem load_join_iff (h : fs.SeenFrom dir fs') (hdir : Path.isAbsolute dir) (hne : p ≠ [])
    (hp : ¬ Path.isAbsolute p) :
    ((∃ f, load fs (Path.join dir p) = .ok f) ↔
      (∃ g, load fs' p = .ok g) ∧ (Path.join dir p).length ≤ FileSystem.maxPath) ∧
    ∀ f g, load fs (Path.join dir p) = .ok f → load fs' p = .ok g → Agrees dir f g := by
  constructor
  · constructor
    · rintro ⟨f, hload⟩
      obtain ⟨bytes, written, hread, hwritten, -⟩ := load_eq_ok_iff.mp hload
      obtain ⟨hread', hshort⟩ := (h.read_join hdir hne hp).mp hread
      exact ⟨⟨_, load_eq_ok_iff.mpr ⟨bytes, written, hread', hwritten, rfl⟩⟩, hshort⟩
    · rintro ⟨⟨g, hload⟩, hshort⟩
      obtain ⟨bytes, written, hread', hwritten, -⟩ := load_eq_ok_iff.mp hload
      have hread := (h.read_join hdir hne hp).mpr ⟨hread', hshort⟩
      exact ⟨_, load_eq_ok_iff.mpr ⟨bytes, written, hread, hwritten, rfl⟩⟩
  · intro f g hload hload'
    obtain ⟨bytes, written, hread, hwritten, rfl⟩ := load_eq_ok_iff.mp hload
    obtain ⟨bytes', written', hread', hwritten', rfl⟩ := load_eq_ok_iff.mp hload'
    have hreads := (h.read_join hdir hne hp).mp hread
    obtain rfl : bytes = bytes' := Except.ok.inj (hreads.1.symm.trans hread')
    obtain rfl := hwritten.unique hwritten'
    have hbase := isBase_of_steps hdir hp (FileSystem.steps_ne_nil_of_read hp hread')
    exact agrees_relativeTo hdir hbase written

/-- A file below the working directory, named with an empty part and a step back. -/
theorem load_join_of_step_back :
    let conf := Bytes.ofString "conf"
    let name := Bytes.ofString "h.toml"
    let content := Bytes.ofString "capture = \"f.pcap\"\ntool = \"./dec\"\n"
    let fs : FileSystem :=
      ⟨[], [([conf], .directory), ([conf, name], .file content false)]⟩
    let fs' : FileSystem := { fs with workingDirectory := [conf] }
    let dir := Bytes.ofString "/conf/"
    let p := Bytes.ofString "..//conf/h.toml"
    (∃ g, load fs' p = .ok g) ∧ ∃ f, load fs (Path.join dir p) = .ok f ∧
      f.capture = some (Bytes.ofString "/conf/..//conf/f.pcap") ∧
      ∀ g, load fs' p = .ok g → Agrees dir f g := by
  intro conf name content fs fs' dir p
  let text := "capture = \"f.pcap\"\ntool = \"./dec\"\n".toList
  let written : ConfigFile :=
    ⟨some (Bytes.ofString "./dec"), none, some (Bytes.ofString "f.pcap"), none, none⟩
  have hdocument : Toml.document? text = some
      [(⟨"capture".toList, ⟨34, 27⟩⟩, ⟨24, 16⟩, .string "f.pcap".toList),
        (⟨"tool".toList, ⟨15, 11⟩⟩, ⟨8, 1⟩, .string "./dec".toList)] := rfl
  have hwritten : IsWritten content written := by
    refine ⟨text, by decide, ?_⟩
    rw [ofText, hdocument]
    dsimp only
    rw [inOrder, List.mergeSort_of_pairwise (by decide)]
    decide
  have hread : fs.read (Path.join dir p) = .ok content := by decide
  have hseen : fs.SeenFrom dir fs' := FileSystem.seenFrom_of_root rfl (by decide) (by decide)
  obtain ⟨hiff, hagrees⟩ := load_join_iff (p := p) hseen (by decide) (by decide) (by decide)
  have hload := load_eq_ok_iff.mpr ⟨content, written, hread, hwritten, rfl⟩
  exact ⟨(hiff.mp ⟨_, hload⟩).1, _, hload, by decide, fun g => hagrees _ g hload⟩

/-- One of the names can be too long where the other is not: dots make a path longer that leads nowhere
else. So the file is loaded by its short name only. -/
theorem load_join_of_long :
    let folder := Bytes.ofString "conf"
    let name := Bytes.ofString "h.toml"
    let fs : FileSystem :=
      ⟨[], [([folder], .directory), ([folder, name], .file (Bytes.ofString "tool = \"dec\"\n") false)]⟩
    let fs' : FileSystem := { fs with workingDirectory := [folder] }
    let dir := Bytes.ofString "/conf"
    let p := FileSystem.dots 2044 ++ name
    fs.SeenFrom dir fs' ∧ Path.isAbsolute dir ∧ p ≠ [] ∧ ¬ Path.isAbsolute p ∧
      load fs' p = .ok ⟨some (Bytes.ofString "dec"), none, none, none, none⟩ ∧
      load fs (Path.join dir p) = .error (.unreadable (Path.join dir p) .nameTooLong) := by
  intro folder name fs fs' dir p
  have hjoin : Path.join dir p = Bytes.ofString "/conf/" ++ (FileSystem.dots 2044 ++ name) := rfl
  have hseen : fs.SeenFrom dir fs' := FileSystem.seenFrom_of_root rfl (by decide) (by decide)
  refine ⟨hseen, by decide, List.append_ne_nil_of_right_ne_nil _ (by decide),
    Bool.false_ne_true, ?_, ?_⟩
  · let text := "tool = \"dec\"\n".toList
    have hdocument : Toml.document? text =
        some [(⟨"tool".toList, ⟨13, 9⟩⟩, ⟨6, 1⟩, .string "dec".toList)] := rfl
    have hwritten : IsWritten (Bytes.ofString "tool = \"dec\"\n")
        ⟨some (Bytes.ofString "dec"), none, none, none, none⟩ := by
      refine ⟨text, by decide, ?_⟩
      rw [ofText, hdocument]
      dsimp only
      rw [inOrder, List.mergeSort_singleton]
      decide
    have hread : fs'.read p = .ok (Bytes.ofString "tool = \"dec\"\n") := by
      rw [FileSystem.read, FileSystem.locate_dots_append (by decide) (by decide) (by decide)]
      decide
    exact load_eq_ok_iff.mpr ⟨_, _, hread, hwritten, rfl⟩
  · have hnul : ¬ (Path.join dir p).contains 0 := by
      rw [hjoin, List.contains_iff_mem, List.mem_append, List.mem_append]
      simp only [FileSystem.zero_not_mem_dots, false_or]
      decide
    have hlong : FileSystem.maxPath < (Path.join dir p).length := by
      rw [hjoin, List.length_append, List.length_append, FileSystem.length_dots]
      decide
    have hread : fs.read (Path.join dir p) = .error .nameTooLong := by
      have hne : Path.join dir p ≠ [] := by
        rw [hjoin]
        exact List.append_ne_nil_of_left_ne_nil (by decide) _
      rw [FileSystem.read, FileSystem.locate, if_neg hne, if_neg hnul, if_pos hlong]
    rw [load, hread]

end GoldenHarness.ConfigFile

import GoldenHarness.Proofs.Config.Entries
import GoldenHarness.Proofs.Config.Sources
import GoldenHarness.Proofs.Text.Encoding

/-!
# What loading a configuration file comes to

A file that cannot be read as text, or whose text is no document, is refused as a whole. Otherwise it
is loaded if each of its entries sets a key to a string, and if not, it is refused for the first of the
faulty entries in the order of keys. So the order of the keys in the file does not matter.
-/

namespace GoldenHarness.ConfigFile

open Toml (Key Span Value)
open Config (fromDirectory toolFromDirectory)

/-! ## The order of keys -/

theorem isOrdered_nil (a : List Char) : isOrdered [] a := rfl

theorem isOrdered_cons_cons (a b : Char) (as bs : List Char) :
    isOrdered (a :: as) (b :: bs) = if a = b then isOrdered as bs else a.toNat < b.toNat := rfl

theorem isOrdered_refl (a : List Char) : isOrdered a a := by
  induction a with
  | nil => exact isOrdered_nil []
  | cons c a ih => rwa [isOrdered_cons_cons, if_pos rfl]

theorem isOrdered_trans {a b c : List Char} (hab : isOrdered a b) (hbc : isOrdered b c) :
    isOrdered a c := by
  -- on the common beginning; the first characters that differ decide
  induction a generalizing b c with
  | nil => exact isOrdered_nil c
  | cons x a ih =>
    cases b with
    | nil => cases hab
    | cons y b =>
      cases c with
      | nil => cases hbc
      | cons z c =>
        rw [isOrdered_cons_cons] at hab hbc ⊢
        by_cases hxy : x = y
        · subst hxy
          rw [if_pos rfl] at hab
          by_cases hxz : x = z
          · rw [if_pos hxz] at hbc ⊢
            exact ih hab hbc
          · rw [if_neg hxz] at hbc ⊢
            exact hbc
        · rw [if_neg hxy, decide_eq_true_eq] at hab
          have hxz : x.toNat < z.toNat := by
            by_cases hyz : y = z
            · rwa [← hyz]
            · rw [if_neg hyz, decide_eq_true_eq] at hbc
              exact Nat.lt_trans hab hbc
          have hne : x ≠ z := by
            rintro rfl
            exact Nat.lt_irrefl _ hxz
          rw [if_neg hne, decide_eq_true_eq]
          exact hxz

theorem isOrdered_total (a b : List Char) : isOrdered a b || isOrdered b a := by
  rw [Bool.or_eq_true]
  induction a generalizing b with
  | nil => exact Or.inl (isOrdered_nil b)
  | cons x a ih =>
    cases b with
    | nil => exact Or.inr (isOrdered_nil _)
    | cons y b =>
      rw [isOrdered_cons_cons, isOrdered_cons_cons]
      by_cases hxy : x = y
      · rw [if_pos hxy, if_pos hxy.symm]
        exact ih b
      · rw [if_neg hxy, if_neg (Ne.symm hxy), decide_eq_true_eq, decide_eq_true_eq]
        have hne : x.toNat ≠ y.toNat := fun heq => hxy (Char.toNat_inj.mp heq)
        omega

theorem isOrdered_antisymm {a b : List Char} (hab : isOrdered a b) (hba : isOrdered b a) : a = b := by
  induction a generalizing b with
  | nil =>
    cases b with
    | nil => rfl
    | cons y b => cases hba
  | cons x a ih =>
    cases b with
    | nil => cases hab
    | cons y b =>
      rw [isOrdered_cons_cons] at hab hba
      by_cases hxy : x = y
      · rw [if_pos hxy] at hab
        rw [if_pos hxy.symm] at hba
        rw [hxy, ih hab hba]
      · rw [if_neg hxy, decide_eq_true_eq] at hab
        rw [if_neg (Ne.symm hxy), decide_eq_true_eq] at hba
        exact absurd hab (Nat.lt_asymm hba)

variable {entries entries' : Toml.Entries} {entry other : Key × Span × Value} {fault : ConfigFault}

theorem pairwise_inOrder (entries : Toml.Entries) :
    (inOrder entries).Pairwise fun a b => isOrdered a.1.name b.1.name := by
  have htrans (a b c : Key × Span × Value) (hab : isOrdered a.1.name b.1.name)
      (hbc : isOrdered b.1.name c.1.name) : isOrdered a.1.name c.1.name := isOrdered_trans hab hbc
  have htotal (a b : Key × Span × Value) :
      isOrdered a.1.name b.1.name || isOrdered b.1.name a.1.name := isOrdered_total _ _
  exact List.pairwise_mergeSort htrans htotal entries

/-! ## The first fault -/

/-- An entry is faulty, and comes before all others that are in the order of keys. -/
structure IsFirstFaulty (entries : Toml.Entries) (entry : Key × Span × Value) : Prop where
  /-- It is one of the entries. -/
  mem : entry ∈ entries
  /-- Something is wrong with it. -/
  isFaulty : ∃ fault, IsFault entry fault
  /-- No faulty entry comes before it. -/
  isOrdered : ∀ other ∈ entries, (∃ fault, IsFault other fault) →
    isOrdered entry.1.name other.1.name

theorem IsFirstFaulty.unique (hdistinct : entries.names.Nodup) (h : IsFirstFaulty entries entry)
    (h' : IsFirstFaulty entries other) : entry = other := by
  have hname : entry.1.name = other.1.name :=
    isOrdered_antisymm (h.isOrdered other h'.mem h'.isFaulty) (h'.isOrdered entry h.mem h.isFaulty)
  have hlookup := (Toml.Entries.lookup?_eq_some_iff hdistinct).mpr ⟨h.mem, hname⟩
  have hlookup' := (Toml.Entries.lookup?_eq_some_iff hdistinct).mpr ⟨h'.mem, rfl⟩
  exact Option.some.inj (hlookup.symm.trans hlookup')

theorem allSet_of_foldlM {f g : ConfigFile} (h : entries.foldlM takeEntry f = .ok g) :
    AllSet entries := by
  induction entries generalizing f with
  | nil => exact fun _ hmem => nomatch hmem
  | cons entry entries ih =>
    rw [List.foldlM_cons] at h
    obtain ⟨next, hnext, hrest⟩ := bind_eq_ok.mp h
    intro entry' hmem
    rcases List.mem_cons.mp hmem with rfl | hmem
    · rcases isSetting_or_isFault entry' with hsetting | ⟨fault, hfault⟩
      · exact hsetting
      · rw [takeEntry_of_isFault f hfault] at hnext
        cases hnext
    · exact ih hrest entry' hmem

/-- A document sets keys to strings throughout, or is refused for its first faulty entry. -/
theorem ofText_cases {text : List Char} (hdocument : Toml.document? text = some entries) :
    (AllSet entries ∧ ofText text = .ok (ofSettings (settingsOf entries))) ∨
      ∃ entry fault, IsFirstFaulty entries entry ∧ IsFault entry fault ∧
        ofText text = .error fault := by
  have hperm := perm_inOrder entries
  cases hfold : (inOrder entries).foldlM takeEntry empty with
  | ok file =>
    have hall : AllSet entries := fun entry hmem =>
      allSet_of_foldlM hfold entry (hperm.mem_iff.mpr hmem)
    exact Or.inl ⟨hall, ofText_of_allSet hdocument hall⟩
  | error fault =>
    obtain ⟨before, entry, after, file, hsplit, hbefore, htake⟩ := foldlM_eq_error_iff.mp hfold
    have hfault := takeEntry_eq_error_iff.mp htake
    have hmem (other : Key × Span × Value) : other ∈ entries ↔ other ∈ before ++ entry :: after := by
      rw [← hperm.mem_iff, hsplit]
    have hsorted := pairwise_inOrder entries
    rw [hsplit, List.pairwise_append, List.pairwise_cons] at hsorted
    refine Or.inr ⟨entry, fault, ⟨(hmem _).mpr (by simp), ⟨fault, hfault⟩, ?_⟩, hfault, ?_⟩
    · rintro other hother ⟨fault', hfault'⟩
      rcases List.mem_append.mp ((hmem _).mp hother) with hother | hother
      · -- the entries before were taken over, so they are not faulty
        obtain ⟨k, text, hsetting⟩ := allSet_of_foldlM hbefore other hother
        exact absurd hsetting (hfault'.not_isSetting k text)
      · rcases List.mem_cons.mp hother with rfl | hother
        · exact isOrdered_refl _
        · exact hsorted.2.1.1 other hother
    · rw [ofText, hdocument]
      exact hfold

/-! ## All outcomes -/

/-- The text of a file: what its bytes encode. -/
def HasText (fs : FileSystem) (path : Path) (text : List Char) : Prop :=
  fs.read path = .ok (Utf8.encode text)

/-- What loading a file comes to. -/
inductive Loads (fs : FileSystem) (path : Path) : Except ConfigError ConfigFile → Prop where
  /-- The file cannot be read. -/
  | unreadable {cause : Failure} (h : fs.read path = .error cause) :
      Loads fs path (.error (.unreadable path cause))
  /-- The file is not UTF-8. -/
  | notUtf8 {bytes : Bytes} (hread : fs.read path = .ok bytes)
      (h : ∀ text, bytes ≠ Utf8.encode text) : Loads fs path (.error (.unreadable path .notUtf8))
  /-- The text is no document. -/
  | malformed {text : List Char} (htext : HasText fs path text)
      (h : Toml.document? text = none) : Loads fs path (.error (.faulty text .malformed))
  /-- The document has faulty entries. -/
  | faulty {text : List Char} {entries : Toml.Entries} {entry : Key × Span × Value}
      {fault : ConfigFault} (htext : HasText fs path text)
      (hdocument : Toml.document? text = some entries) (hfirst : IsFirstFaulty entries entry)
      (hfault : IsFault entry fault) : Loads fs path (.error (.faulty text fault))
  /-- Each entry of the document sets a key to a string. -/
  | loaded {text : List Char} {entries : Toml.Entries} {settings : ConfigKey → Option (List Char)}
      {directory : Path} (htext : HasText fs path text)
      (hdocument : Toml.document? text = some entries) (hall : AllSet entries)
      (hsettings : ∀ k value, settings k = some value ↔ ∃ entry ∈ entries, IsSetting entry k value)
      (hdirectory : directory = (Path.parent? path).getD Path.dot) :
      Loads fs path (.ok
        { tool := (settings .tool).map fun value => toolFromDirectory directory (Utf8.encode value)
          subcommand := (settings .subcommand).map String.ofList
          capture := (settings .capture).map fun value => fromDirectory directory (Utf8.encode value)
          golden := (settings .golden).map fun value => fromDirectory directory (Utf8.encode value)
          scratchDir :=
            (settings .scratchDir).map fun value => fromDirectory directory (Utf8.encode value) })

variable {fs fs' : FileSystem} {path : Path}

theorem load_of_hasText {text : List Char} (h : HasText fs path text) :
    load fs path = match ofText text with
      | .error fault => .error (.faulty text fault)
      | .ok file => .ok (file.relativeTo (base path)) := by
  rw [load, h]
  dsimp only
  rw [Utf8.decode?_eq_some_iff.mpr rfl]
  rfl

theorem relativeTo_ofSettings (settings : ConfigKey → Option (List Char)) (directory : Path) :
    (ofSettings settings).relativeTo directory =
      { tool := (settings .tool).map fun value => toolFromDirectory directory (Utf8.encode value)
        subcommand := (settings .subcommand).map String.ofList
        capture := (settings .capture).map fun value => fromDirectory directory (Utf8.encode value)
        golden := (settings .golden).map fun value => fromDirectory directory (Utf8.encode value)
        scratchDir :=
          (settings .scratchDir).map fun value => fromDirectory directory (Utf8.encode value) } := by
  rw [Config.fromDirectory_eq_rebase, Config.toolFromDirectory_eq_rebaseTool]
  simp only [relativeTo, ofSettings, Option.map_map]
  rfl

theorem loads_load (fs : FileSystem) (path : Path) : Loads fs path (load fs path) := by
  cases hread : fs.read path with
  | error cause =>
    have hload : load fs path = .error (.unreadable path cause) := by rw [load, hread]
    rw [hload]
    exact .unreadable hread
  | ok bytes =>
    cases hdecode : Utf8.decode? bytes with
    | none =>
      have hload : load fs path = .error (.unreadable path .notUtf8) := by
        rw [load, hread]
        dsimp only
        rw [hdecode]
      rw [hload]
      refine .notUtf8 hread fun text heq => ?_
      rw [Utf8.decode?_eq_some_iff.mpr heq] at hdecode
      cases hdecode
    | some text =>
      rw [Utf8.decode?_eq_some_iff] at hdecode
      have htext : HasText fs path text := by rw [HasText, hread, hdecode]
      rw [load_of_hasText htext]
      cases hdocument : Toml.document? text with
      | none =>
        rw [ofText, hdocument]
        exact .malformed htext hdocument
      | some entries =>
        rcases ofText_cases hdocument with ⟨hall, hwritten⟩ | ⟨entry, fault, hfirst, hfault, hwritten⟩
        · rw [hwritten]
          dsimp only
          rw [relativeTo_ofSettings]
          have hdistinct := Toml.Entries.nodup_names_of_document? hdocument
          exact .loaded htext hdocument hall (fun k value => settingsOf_eq_some_iff hdistinct) rfl
        · rw [hwritten]
          exact .faulty htext hdocument hfirst hfault

theorem Loads.load_eq {result : Except ConfigError ConfigFile} (h : Loads fs path result) :
    load fs path = result := by
  cases h with
  | unreadable h => rw [load, h]
  | @notUtf8 bytes hread h =>
    have hdecode : Utf8.decode? bytes = none := by
      rw [Option.eq_none_iff_forall_ne_some]
      exact fun text hdecode => h text (Utf8.decode?_eq_some_iff.mp hdecode)
    rw [load, hread]
    dsimp only
    rw [hdecode]
  | malformed htext h => rw [load_of_hasText htext, ofText, h]
  | faulty htext hdocument hfirst hfault =>
    rw [load_of_hasText htext]
    rcases ofText_cases hdocument with ⟨hall, -⟩ | ⟨entry', fault', hfirst', hfault', hwritten⟩
    · obtain ⟨k, text, hsetting⟩ := hall _ hfirst.mem
      exact absurd hsetting (hfault.not_isSetting k text)
    · have hdistinct := Toml.Entries.nodup_names_of_document? hdocument
      obtain rfl := hfirst.unique hdistinct hfirst'
      obtain rfl := hfault.unique hfault'
      rw [hwritten]
  | loaded htext hdocument hall hsettings hdirectory =>
    have hdistinct := Toml.Entries.nodup_names_of_document? hdocument
    have hsame : settingsOf _ = _ := funext fun k => Option.ext fun value =>
      (settingsOf_eq_some_iff hdistinct).trans (hsettings k value).symm
    rw [load_of_hasText htext, ofText_of_allSet hdocument hall, hsame, hdirectory]
    exact congrArg Except.ok (relativeTo_ofSettings _ _)

/-! ## The order of the entries -/

/-- What an entry says, wherever it is written: its key, its text if it has one, and how its value is
told. -/
def told (entry : Key × Span × Value) : List Char × Option (List Char) × Option String :=
  (entry.1.name, match entry.2.2 with
    | .string text => some text
    | _ => none, describe? entry.2.2)

/-- Two faults are the same, apart from where they are. -/
inductive Alike : ConfigFault → ConfigFault → Prop where
  /-- The same key is unknown. -/
  | unknownKey {key key' : Key} (h : key.name = key'.name) : Alike (.unknownKey key) (.unknownKey key')
  /-- The value of the same key is of the same wrong type. -/
  | wrongType {k : ConfigKey} {found : String} {span span' : Span} :
      Alike (.wrongType k found span) (.wrongType k found span')
  /-- A number is too large. -/
  | tooLarge : Alike .tooLarge .tooLarge

theorem isSetting_iff_of_told {k : ConfigKey} {text : List Char} :
    IsSetting entry k text ↔ (told entry).1 = k.name.toList ∧ (told entry).2.1 = some text := by
  obtain ⟨key, span, value⟩ := entry
  refine and_congr_right fun _ => ?_
  cases value <;> simp [told]

theorem IsSetting.congr {k : ConfigKey} {text : List Char} (h : told entry = told other) :
    IsSetting entry k text ↔ IsSetting other k text := by
  rw [isSetting_iff_of_told, isSetting_iff_of_told, h]

/-- Entries that say the same are faulty in the same way. -/
theorem IsFault.alike {fault' : ConfigFault} (htold : told entry = told other) (h : IsFault entry fault)
    (h' : IsFault other fault') : Alike fault fault' := by
  obtain ⟨key, span, value⟩ := entry
  obtain ⟨key', span', value'⟩ := other
  obtain ⟨hname, hvalue⟩ := Prod.mk.inj htold
  have hdescribe : describe? value = describe? value' := (Prod.mk.inj hvalue).2
  have hkey : key.name = key'.name := hname
  cases h with
  | unknownKey h =>
    cases h' with
    | unknownKey h' => exact .unknownKey hkey
    | wrongType h' => exact absurd (hkey.trans h') (h _)
    | tooLarge h' => exact absurd (hkey.trans h') (h _)
  | wrongType h hstring hfound =>
    cases h' with
    | unknownKey h' => exact absurd (hkey.symm.trans h) (h' _)
    | wrongType h' hstring' hfound' =>
      obtain rfl := ConfigKey.name_injective ((h.symm.trans hkey).trans h')
      obtain rfl := Option.some.inj ((hfound.symm.trans hdescribe).trans hfound')
      exact .wrongType
    | tooLarge h' hlarge =>
      rw [hdescribe, describe?_eq_none_iff.mpr hlarge] at hfound
      cases hfound
  | tooLarge h hlarge =>
    cases h' with
    | unknownKey h' => exact absurd (hkey.symm.trans h) (h' _)
    | wrongType h' hstring' hfound' =>
      rw [← hdescribe, describe?_eq_none_iff.mpr hlarge] at hfound'
      cases hfound'
    | tooLarge h' => exact .tooLarge

/-- Two loadings come to the same: to the same configuration, or to faults that are the same apart from
where they are. -/
inductive SameOutcome : Except ConfigError ConfigFile → Except ConfigError ConfigFile → Prop where
  /-- Both files are loaded. -/
  | loaded (file : ConfigFile) : SameOutcome (.ok file) (.ok file)
  /-- Both files are faulty. -/
  | faulty {text text' : List Char} {fault fault' : ConfigFault} (h : Alike fault fault') :
      SameOutcome (.error (.faulty text fault)) (.error (.faulty text' fault'))

/-- Each of some entries says what one of the others says. -/
def SaidBy (entries entries' : Toml.Entries) : Prop :=
  ∀ entry ∈ entries, ∃ other ∈ entries', told other = told entry

theorem saidBy_of_perm (h : (entries.map told).Perm (entries'.map told)) : SaidBy entries entries' :=
  fun _ hmem => List.mem_map.mp (h.mem_iff.mp (List.mem_map_of_mem hmem))

theorem SaidBy.allSet (h : SaidBy entries entries') (hall : AllSet entries') : AllSet entries := by
  intro entry hmem
  obtain ⟨other, hother, htold⟩ := h entry hmem
  obtain ⟨k, text, hsetting⟩ := hall other hother
  exact ⟨k, text, (IsSetting.congr htold).mp hsetting⟩

theorem SaidBy.isSetting (h : SaidBy entries entries') {k : ConfigKey} {text : List Char}
    (hsetting : ∃ entry ∈ entries, IsSetting entry k text) :
    ∃ entry ∈ entries', IsSetting entry k text := by
  obtain ⟨entry, hmem, hentry⟩ := hsetting
  obtain ⟨other, hother, htold⟩ := h entry hmem
  exact ⟨other, hother, (IsSetting.congr htold).mpr hentry⟩

theorem IsFirstFaulty.congr (h : IsFirstFaulty entries entry) (hsaid : SaidBy entries' entries)
    (hother : other ∈ entries') (htold : told other = told entry) : IsFirstFaulty entries' other := by
  have hfaulty {a b : Key × Span × Value} (hab : told a = told b) (ha : ∃ fault, IsFault a fault) :
      ∃ fault, IsFault b fault := by
    rw [exists_fault_iff] at ha ⊢
    exact fun k text hsetting => ha k text ((IsSetting.congr hab).mpr hsetting)
  have hname {a b : Key × Span × Value} (hab : told a = told b) : a.1.name = b.1.name :=
    (Prod.mk.inj hab).1
  refine ⟨hother, hfaulty htold.symm h.isFaulty, fun later hlater hfault => ?_⟩
  obtain ⟨later', hlater', htold'⟩ := hsaid later hlater
  rw [hname htold, ← hname htold']
  exact h.isOrdered later' hlater' (hfaulty htold'.symm hfault)

/-- The order of the entries does not matter. -/
theorem sameOutcome_of_perm {text text' : List Char} (htext : HasText fs path text)
    (htext' : HasText fs' path text') (hdocument : Toml.document? text = some entries)
    (hdocument' : Toml.document? text' = some entries')
    (hperm : (entries.map told).Perm (entries'.map told)) :
    SameOutcome (load fs path) (load fs' path) := by
  have hdistinct := Toml.Entries.nodup_names_of_document? hdocument
  have hdistinct' := Toml.Entries.nodup_names_of_document? hdocument'
  have hsaid := saidBy_of_perm hperm
  have hsaid' := saidBy_of_perm hperm.symm
  rw [load_of_hasText htext, load_of_hasText htext']
  rcases ofText_cases hdocument with ⟨hall, hwritten⟩ | ⟨entry, fault, hfirst, hfault, hwritten⟩
  · have hsettings : settingsOf entries = settingsOf entries' := by
      refine funext fun k => Option.ext fun value => ?_
      rw [settingsOf_eq_some_iff hdistinct, settingsOf_eq_some_iff hdistinct']
      exact ⟨hsaid.isSetting, hsaid'.isSetting⟩
    rw [hwritten, ofText_of_allSet hdocument' (hsaid'.allSet hall), hsettings]
    exact .loaded _
  · obtain ⟨other, hother, htold⟩ := hsaid entry hfirst.mem
    have hfirst' := hfirst.congr hsaid' hother htold
    rcases ofText_cases hdocument' with ⟨hall, -⟩ | ⟨other', fault', hfirst'', hfault', hwritten'⟩
    · obtain ⟨k, text, hsetting⟩ := hsaid.allSet hall entry hfirst.mem
      exact absurd hsetting (hfault.not_isSetting k text)
    · obtain rfl := hfirst'.unique hdistinct' hfirst''
      rw [hwritten, hwritten']
      exact .faulty (hfault.alike htold.symm hfault')

/-! ## What errors say -/

/-- What the message of an error says in any case. -/
def gist : ConfigError → String
  | .unreadable path _ => Path.display path
  | .faulty _ (.unknownKey key) => s!"unknown field `{String.ofList key.name}`"
  | .faulty _ (.wrongType k found _) => s!"invalid type: {found}, expected {k.expected}"
  | .faulty _ .malformed | .faulty _ .tooLarge => "Failed to parse TOML: "

/-- A text is part of the message of an error. -/
def Mentions (e : ConfigError) (text : String) : Prop :=
  ∃ before after, e.message = before ++ text ++ after

theorem exists_render (text : List Char) (span : Span) (message : String) :
    ∃ before, Toml.Excerpt.render text span message = before ++ message ++ "\n" := by
  have hjoin (a b : String) :
      ∃ before, a ++ (b ++ toString message ++ toString "\n") = before ++ message ++ "\n" :=
    ⟨a ++ b, by rw [← String.append_assoc, ← String.append_assoc]; rfl⟩
  exact hjoin _ _

/-- An error that shows an excerpt mentions what is wrong there. -/
theorem mentions_of_render {e : ConfigError} {text : List Char} {span : Span} {message : String}
    (h : e.message = "Failed to parse TOML: " ++ Toml.Excerpt.render text span message) :
    Mentions e message := by
  have hrender := exists_render text span message
  unfold Mentions
  rw [h]
  generalize Toml.Excerpt.render text span message = shown at hrender
  obtain ⟨before, rfl⟩ := hrender
  exact ⟨"Failed to parse TOML: " ++ before, "\n", by simp only [String.append_assoc]⟩

theorem Mentions.of_append {e : ConfigError} {text more : String} (h : Mentions e (text ++ more)) :
    Mentions e text := by
  obtain ⟨before, after, hmessage⟩ := h
  exact ⟨before, more ++ after, by rw [hmessage]; simp only [String.append_assoc]⟩

theorem mentions_gist (e : ConfigError) : Mentions e (gist e) := by
  cases e with
  | unreadable path cause =>
    refine ⟨"Failed to read config file '", "': " ++ cause.message, ?_⟩
    rw [← String.append_assoc]
    rfl
  | faulty text fault =>
    cases fault with
    | malformed => exact ⟨"", "TOML parse error\n", rfl⟩
    | tooLarge => exact ⟨"", "number overflowed\n", rfl⟩
    | wrongType k found span =>
      have hmessage : (ConfigError.faulty text (.wrongType k found span)).message =
          "Failed to parse TOML: " ++
            Toml.Excerpt.render text span s!"invalid type: {found}, expected {k.expected}" := rfl
      exact mentions_of_render hmessage
    | unknownKey key =>
      let known := ", ".intercalate (ConfigKey.all.map fun k : ConfigKey => s!"`{k.name}`")
      have hsplit : s!"unknown field `{String.ofList key.name}`, expected one of {known}" =
          s!"unknown field `{String.ofList key.name}`" ++ (", expected one of " ++ known) := by
        have hcut : "`, expected one of " = "`" ++ ", expected one of " := rfl
        simp only [toString, hcut, String.append_assoc]
      have hmessage : (ConfigError.faulty text (.unknownKey key)).message =
          "Failed to parse TOML: " ++ Toml.Excerpt.render text key.span
            s!"unknown field `{String.ofList key.name}`, expected one of {known}" := rfl
      rw [hsplit] at hmessage
      exact (mentions_of_render hmessage).of_append

/-! ## Loading -/

/-- **What loading a configuration file comes to.** Each outcome is had in its own case and in no other.
The order of the entries does not matter, and errors tell the path of a file that cannot be read, the
key that is unknown and the type that is wrong. -/
theorem load_settles (fs : FileSystem) (path : Path) :
    (∀ result, load fs path = result ↔ Loads fs path result) ∧
    (∀ e, load fs path = .error e → Mentions e (gist e)) ∧
    ∀ fs' text text' entries entries', HasText fs path text → HasText fs' path text' →
      Toml.document? text = some entries → Toml.document? text' = some entries' →
      (entries.map told).Perm (entries'.map told) → SameOutcome (load fs path) (load fs' path) := by
  refine ⟨fun result => ⟨?_, Loads.load_eq⟩, fun e _ => mentions_gist e, ?_⟩
  · rintro rfl
    exact loads_load fs path
  · intro fs' text text' entries entries' htext htext' hdocument hdocument' hperm
    exact sameOutcome_of_perm htext htext' hdocument hdocument' hperm

/-- Two files with the same faulty entries in another order are refused for the same key, which comes
last in one of them. -/
theorem load_settles_of_reordered :
    let name := Bytes.ofString "h.toml"
    let text := "tool = 1\naaa = \"x\"\n".toList
    let text' := "aaa = \"x\"\ntool = 1\n".toList
    let fs : FileSystem := ⟨[], [([name], .file (Utf8.encode text) false)]⟩
    let fs' : FileSystem := ⟨[], [([name], .file (Utf8.encode text') false)]⟩
    load fs name = .error (.faulty text (.unknownKey ⟨"aaa".toList, ⟨10, 7⟩⟩)) ∧
      SameOutcome (load fs name) (load fs' name) := by
  intro name text text' fs fs'
  let first : Key × Span × Value := (⟨"aaa".toList, ⟨10, 7⟩⟩, ⟨4, 1⟩, .string "x".toList)
  let second : Key × Span × Value := (⟨"tool".toList, ⟨19, 15⟩⟩, ⟨12, 11⟩, .integer 1)
  have hdocument : Toml.document? text = some [second, first] := rfl
  have hdocument' : Toml.document? text' = some
      [(⟨"aaa".toList, ⟨19, 16⟩⟩, ⟨13, 10⟩, .string "x".toList),
        (⟨"tool".toList, ⟨9, 5⟩⟩, ⟨2, 1⟩, .integer 1)] := rfl
  have htext : HasText fs name text := by unfold HasText; decide
  have htext' : HasText fs' name text' := by unfold HasText; decide
  have hunknown : IsFault first (.unknownKey ⟨"aaa".toList, ⟨10, 7⟩⟩) :=
    .unknownKey fun k => by cases k <;> decide
  have hfirst : IsFirstFaulty [second, first] first := by
    refine ⟨by simp, ⟨_, hunknown⟩, fun other hother _ => ?_⟩
    rcases List.mem_cons.mp hother with rfl | hother
    · decide
    · rw [List.mem_singleton.mp hother]
      decide
  obtain ⟨hload, -, horder⟩ := load_settles fs name
  exact ⟨(hload _).mpr (.faulty htext hdocument hfirst hunknown),
    horder fs' text text' _ _ htext htext' hdocument hdocument' (.swap _ _ _)⟩

/-- A number can be too large to be told. The file that gives one to a key is a document, but it is not
refused with a message on the type. -/
theorem load_of_large_number :
    let name := Bytes.ofString "h.toml"
    let text := "tool = 10000000000000000000000000000000000000000\n".toList
    let fs : FileSystem := ⟨[], [([name], .file (Utf8.encode text) false)]⟩
    (∃ key span, Toml.document? text = some [(key, span, .integer (10 ^ 40))]) ∧
      load fs name = .error (.faulty text .tooLarge) := by
  intro name text fs
  let entry : Key × Span × Value := (⟨"tool".toList, ⟨49, 45⟩⟩, ⟨42, 1⟩, .integer (10 ^ 40))
  have hdocument : Toml.document? text = some [entry] := rfl
  have htext : HasText fs name text := by unfold HasText; decide
  have hlarge : IsFault entry .tooLarge := .tooLarge (k := .tool) rfl (.integer (by decide))
  have hfirst : IsFirstFaulty [entry] entry := by
    refine ⟨List.mem_singleton_self _, ⟨_, hlarge⟩, fun other hother _ => ?_⟩
    rw [List.mem_singleton.mp hother]
    exact isOrdered_refl _
  exact ⟨⟨_, _, hdocument⟩, (Loads.faulty htext hdocument hfirst hlarge).load_eq⟩

end GoldenHarness.ConfigFile

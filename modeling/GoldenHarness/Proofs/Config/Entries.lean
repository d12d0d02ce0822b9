import GoldenHarness.Proofs.Config.Loading
import GoldenHarness.Proofs.Decimal.Range
import GoldenHarness.Proofs.Failing
import GoldenHarness.Proofs.Toml.Lines

/-!
# The entries of a configuration file

An entry of a configuration file sets a key to a string, or is faulty. Which of the two it is depends
on nothing else in the file, and as long as the keys differ, what the entries set together does not
depend on their order.
-/

namespace GoldenHarness

open Toml (Key Span Value)

/-! ## Keys -/

namespace ConfigKey

variable {name : List Char} {k k' : ConfigKey}

theorem ofName?_name (k : ConfigKey) : ofName? k.name.toList = some k := by
  cases k <;> decide

theorem ofName?_eq_some_iff : ofName? name = some k ↔ name = k.name.toList := by
  constructor
  · intro h
    have hname := List.find?_some (show all.find? (fun k => k.name.toList = name) = some k from h)
    exact (of_decide_eq_true hname).symm
  · rintro rfl
    exact ofName?_name k

theorem ofName?_eq_none_iff : ofName? name = none ↔ ∀ k : ConfigKey, name ≠ k.name.toList := by
  rw [Option.eq_none_iff_forall_ne_some]
  simp only [Ne, ofName?_eq_some_iff]

theorem name_injective (h : k.name.toList = k'.name.toList) : k = k' := by
  have hname := ofName?_name k
  rw [h, ofName?_name k'] at hname
  exact (Option.some.inj hname).symm

theorem isBareName_name (k : ConfigKey) : Toml.IsBareName k.name.toList := by
  have hname : k.name.toList ≠ [] ∧ k.name.toList.all Toml.isBare := by
    cases k <;> exact ⟨nofun, rfl⟩
  exact ⟨hname.1, List.all_eq_true.mp hname.2⟩

end ConfigKey

namespace ConfigFile

/-! ## Settings -/

/-- The file that sets keys to some texts. -/
def ofSettings (settings : ConfigKey → Option (List Char)) : ConfigFile where
  tool := (settings .tool).map Utf8.encode
  subcommand := (settings .subcommand).map String.ofList
  capture := (settings .capture).map Utf8.encode
  golden := (settings .golden).map Utf8.encode
  scratchDir := (settings .scratchDir).map Utf8.encode

theorem set_ofSettings (settings : ConfigKey → Option (List Char)) (k : ConfigKey) (text : List Char) :
    (ofSettings settings).set k text =
      ofSettings fun k' => if k' = k then some text else settings k' := by
  cases k <;> rfl

/-- An entry sets a key to a text. -/
def IsSetting (entry : Key × Span × Value) (k : ConfigKey) (text : List Char) : Prop :=
  entry.1.name = k.name.toList ∧ entry.2.2 = .string text

/-- The text that some entries set a key to. -/
def settingsOf (entries : Toml.Entries) (k : ConfigKey) : Option (List Char) :=
  match entries.lookup? k.name.toList with
  | some (_, _, .string text) => some text
  | _ => none

variable {entries entries' : Toml.Entries} {entry : Key × Span × Value} {k : ConfigKey} {text : List Char}

theorem settingsOf_eq_some_iff (hdistinct : entries.names.Nodup) :
    settingsOf entries k = some text ↔ ∃ entry ∈ entries, IsSetting entry k text := by
  unfold settingsOf
  constructor
  · intro h
    split at h
    · next key span text' hlookup =>
      obtain ⟨hmem, hname⟩ := (Toml.Entries.lookup?_eq_some_iff hdistinct).mp hlookup
      cases h
      exact ⟨_, hmem, hname, rfl⟩
    · cases h
  · rintro ⟨⟨key, span, value⟩, hmem, hname, hvalue⟩
    obtain rfl : value = .string text := hvalue
    rw [(Toml.Entries.lookup?_eq_some_iff hdistinct).mpr ⟨hmem, hname⟩]

theorem settingsOf_eq_of_perm (hdistinct : entries.names.Nodup) (h : entries.Perm entries') :
    settingsOf entries = settingsOf entries' := by
  have hdistinct' : entries'.names.Nodup := (h.map _).nodup_iff.mp hdistinct
  funext k
  refine Option.ext fun text => ?_
  rw [settingsOf_eq_some_iff hdistinct, settingsOf_eq_some_iff hdistinct']
  simp only [h.mem_iff]

/-! ## Taking entries over -/

/-- A value is a number too large to be told: a whole number of more than 128 bits, or a fractional
number that is no nearer to the greatest double-precision number than to the one that would come
next. -/
inductive IsTooLarge : Value → Prop where
  /-- A whole number. -/
  | integer {n : Int} (h : n < -Int.pow 2 127 ∨ Int.pow 2 128 ≤ n) : IsTooLarge (.integer n)
  /-- A fractional number. -/
  | decimal {isNegative : Bool} {digits : Nat} {exponent : Int} (hdigits : digits ≠ 0)
      (h : 2 ^ 1024 - 2 ^ 970 ≤ Decimal.value ⟨digits, exponent⟩) :
      IsTooLarge (.float (.decimal isNegative digits exponent))

theorem describeInteger_eq_none_iff {n : Int} :
    describeInteger n = none ↔ n < -Int.pow 2 127 ∨ Int.pow 2 128 ≤ n := by
  have hbound (bits : Nat) : Int.pow 2 bits = 2 ^ bits := rfl
  unfold describeInteger
  simp only [hbound]
  split
  · simp only [reduceCtorEq, false_iff]
    omega
  · split
    · simp only [reduceCtorEq, false_iff]
      omega
    · split
      · simp only [reduceCtorEq, false_iff]
        omega
      · simp only [true_iff]
        omega

theorem describe?_eq_none_iff {value : Value} : describe? value = none ↔ IsTooLarge value := by
  constructor
  · intro h
    unfold describe? at h
    split at h
    · cases h
    · exact .integer (describeInteger_eq_none_iff.mp h)
    · next x =>
      unfold describeFloat at h
      dsimp only at h
      split at h
      · cases h
      · cases h
      · next isNegative digits exponent =>
        split at h
        · cases h
        · next hdigits =>
          have hnone := Option.map_eq_none_iff.mp h
          exact .decimal hdigits ((Decimal.ofDecimal?_eq_none_iff hdigits).mp hnone)
    all_goals cases h
  · intro h
    cases h with
    | integer h => exact describeInteger_eq_none_iff.mpr h
    | decimal hdigits h =>
      rw [describe?, describeFloat]
      dsimp only
      rw [if_neg hdigits, (Decimal.ofDecimal?_eq_none_iff hdigits).mpr h]
      rfl

/-- What is wrong with an entry, if anything is. -/
inductive IsFault : Key × Span × Value → ConfigFault → Prop where
  /-- The key is not one of those of a configuration file. -/
  | unknownKey {key : Key} {span : Span} {value : Value}
      (h : ∀ k : ConfigKey, key.name ≠ k.name.toList) : IsFault (key, span, value) (.unknownKey key)
  /-- The value is not a string. -/
  | wrongType {key : Key} {span : Span} {value : Value} {k : ConfigKey} {found : String}
      (h : key.name = k.name.toList) (hvalue : ∀ text, value ≠ .string text)
      (hfound : describe? value = some found) : IsFault (key, span, value) (.wrongType k found span)
  /-- The value is a number that cannot be told. -/
  | tooLarge {key : Key} {span : Span} {value : Value} {k : ConfigKey}
      (h : key.name = k.name.toList) (hvalue : IsTooLarge value) :
      IsFault (key, span, value) .tooLarge

variable {f : ConfigFile} {fault : ConfigFault}

theorem takeEntry_of_isSetting (f : ConfigFile) (h : IsSetting entry k text) :
    takeEntry f entry = .ok (f.set k text) := by
  obtain ⟨key, span, value⟩ := entry
  obtain ⟨hname, hvalue⟩ := h
  obtain rfl : value = .string text := hvalue
  rw [takeEntry]
  dsimp only
  rw [ConfigKey.ofName?_eq_some_iff.mpr hname]

theorem takeEntry_of_isFault (f : ConfigFile) (h : IsFault entry fault) :
    takeEntry f entry = .error fault := by
  cases h with
  | unknownKey h =>
    rw [takeEntry, ConfigKey.ofName?_eq_none_iff.mpr h]
  | wrongType h hstring hfound =>
    rw [takeEntry, ConfigKey.ofName?_eq_some_iff.mpr h]
    dsimp only
    split
    · next text => exact absurd rfl (hstring text)
    · rw [hfound]
  | tooLarge h hlarge =>
    rw [takeEntry, ConfigKey.ofName?_eq_some_iff.mpr h]
    dsimp only
    split
    · cases hlarge
    · rw [describe?_eq_none_iff.mpr hlarge]

/-- An entry sets a key to a string, or there is something wrong with it. -/
theorem isSetting_or_isFault (entry : Key × Span × Value) :
    (∃ k text, IsSetting entry k text) ∨ ∃ fault, IsFault entry fault := by
  obtain ⟨key, span, value⟩ := entry
  cases hname : ConfigKey.ofName? key.name with
  | none => exact Or.inr ⟨_, .unknownKey (ConfigKey.ofName?_eq_none_iff.mp hname)⟩
  | some k =>
    have hkey := ConfigKey.ofName?_eq_some_iff.mp hname
    by_cases hstring : ∃ text, value = .string text
    · obtain ⟨text, hvalue⟩ := hstring
      exact Or.inl ⟨k, text, hkey, hvalue⟩
    · cases hdescribe : describe? value with
      | some found =>
        exact Or.inr ⟨_, .wrongType hkey (fun text hvalue => hstring ⟨text, hvalue⟩) hdescribe⟩
      | none => exact Or.inr ⟨_, .tooLarge hkey (describe?_eq_none_iff.mp hdescribe)⟩

theorem IsFault.not_isSetting (h : IsFault entry fault) (k : ConfigKey) (text : List Char) :
    ¬ IsSetting entry k text := by
  intro hsetting
  have htake := takeEntry_of_isSetting empty hsetting
  rw [takeEntry_of_isFault empty h] at htake
  cases htake

theorem IsFault.unique {fault' : ConfigFault} (h : IsFault entry fault) (h' : IsFault entry fault') :
    fault = fault' := by
  have htake := takeEntry_of_isFault empty h
  rw [takeEntry_of_isFault empty h'] at htake
  exact (Except.error.inj htake).symm

theorem exists_fault_iff : (∃ fault, IsFault entry fault) ↔ ∀ k text, ¬ IsSetting entry k text := by
  constructor
  · rintro ⟨fault, hfault⟩
    exact hfault.not_isSetting
  · intro h
    rcases isSetting_or_isFault entry with ⟨k, text, hsetting⟩ | hfault
    · exact absurd hsetting (h k text)
    · exact hfault

theorem takeEntry_eq_error_iff : takeEntry f entry = .error fault ↔ IsFault entry fault := by
  constructor
  · intro h
    rcases isSetting_or_isFault entry with ⟨k, text, hsetting⟩ | ⟨fault', hfault⟩
    · rw [takeEntry_of_isSetting f hsetting] at h
      cases h
    · rw [takeEntry_of_isFault f hfault] at h
      cases h
      exact hfault
  · exact takeEntry_of_isFault f

/-- Every entry sets a key to a string. -/
def AllSet (entries : Toml.Entries) : Prop := ∀ entry ∈ entries, ∃ k text, IsSetting entry k text

/-- Entries with different keys set what each of them says, and leave the other keys as they were. -/
theorem foldlM_takeEntry_ofSettings (hdistinct : entries.names.Nodup) (hall : AllSet entries)
    (settings : ConfigKey → Option (List Char)) :
    entries.foldlM takeEntry (ofSettings settings) =
      .ok (ofSettings fun k => (settingsOf entries k).or (settings k)) := by
  -- on the entries: those that follow have other keys, so what an entry sets stays as it is
  induction entries generalizing settings with
  | nil => rfl
  | cons entry entries ih =>
    obtain ⟨k, text, hsetting⟩ := hall entry (List.mem_cons_self ..)
    obtain ⟨hfirst, hrest⟩ := List.nodup_cons.mp hdistinct
    rw [List.foldlM_cons, takeEntry_of_isSetting _ hsetting, set_ofSettings, bind_ok,
      ih hrest fun entry' hmem => hall entry' (List.mem_cons_of_mem _ hmem)]
    refine congrArg (fun s => Except.ok (ofSettings s)) (funext fun k' => ?_)
    have hlookup : settingsOf (entry :: entries) k' =
        if k' = k then some text else settingsOf entries k' := by
      unfold settingsOf
      rw [Toml.Entries.lookup?, List.find?_cons, hsetting.1]
      by_cases hk : k' = k
      · subst hk
        rw [decide_eq_true rfl, if_pos rfl]
        obtain ⟨key, span, value⟩ := entry
        obtain rfl : value = .string text := hsetting.2
        rfl
      · have hname : k.name.toList ≠ k'.name.toList := fun h => hk (ConfigKey.name_injective h).symm
        rw [decide_eq_false hname, if_neg hk]
        rfl
    rw [hlookup]
    by_cases hk : k' = k
    · have hnone : settingsOf entries k' = none := by
        rw [settingsOf, Toml.Entries.lookup?_eq_none_iff.mpr]
        rw [hk, ← hsetting.1]
        exact hfirst
      rw [hnone, if_pos hk, if_pos hk]
      rfl
    · rw [if_neg hk, if_neg hk]

theorem perm_inOrder (entries : Toml.Entries) : (inOrder entries).Perm entries :=
  List.mergeSort_perm entries _

/-- What a document sets, if each of its entries sets a key to a string. -/
theorem ofText_of_allSet {text : List Char} (hdocument : Toml.document? text = some entries)
    (hall : AllSet entries) : ofText text = .ok (ofSettings (settingsOf entries)) := by
  have hperm := perm_inOrder entries
  have hdistinct : (inOrder entries).names.Nodup :=
    (hperm.map _).nodup_iff.mpr (Toml.Entries.nodup_names_of_document? hdocument)
  have hall' : AllSet (inOrder entries) := fun entry hmem => hall entry (hperm.mem_iff.mp hmem)
  have hfold := foldlM_takeEntry_ofSettings hdistinct hall' fun _ => none
  rw [ofText, hdocument]
  dsimp only
  rw [show empty = ofSettings fun _ => none from rfl, hfold]
  simp only [Option.or_none, settingsOf_eq_of_perm hdistinct hperm]

end ConfigFile

end GoldenHarness

import GoldenHarness.Proofs.Config.Entries
import GoldenHarness.Proofs.Text.Encoding

/-!
# Writing a configuration file

Whatever texts are to be set, there is a configuration file that sets them: one with a line for each
key that is set. It is read back exactly, in whatever order the lines are.
-/

namespace GoldenHarness.ConfigFile

/-- The keys that are set and their texts, in a given order of the keys. -/
def linesOf (order : List ConfigKey) (settings : ConfigKey → Option (List Char)) :
    List (List Char × List Char) :=
  order.filterMap fun k => (settings k).map fun text => (k.name.toList, text)

/-- The document that sets keys to some texts, with a line for each, in a given order. -/
def document (e : Toml.Escaping) (isEnded : Bool) (order : List ConfigKey)
    (settings : ConfigKey → Option (List Char)) : List Char :=
  e.document isEnded (linesOf order settings)

section Reading

variable {order : List ConfigKey} {settings : ConfigKey → Option (List Char)} {entries : Toml.Entries}

theorem mem_linesOf {line : List Char × List Char} (h : line ∈ linesOf order settings) :
    ∃ k ∈ order, ∃ text, settings k = some text ∧ (k.name.toList, text) = line := by
  obtain ⟨k, hk, hline⟩ := List.mem_filterMap.mp h
  exact ⟨k, hk, Option.map_eq_some_iff.mp hline⟩

theorem nodup_names_linesOf (h : order.Nodup) (settings : ConfigKey → Option (List Char)) :
    ((linesOf order settings).map Prod.fst).Nodup := by
  have hname {k : ConfigKey} {line : List Char × List Char}
      (hline : (settings k).map (fun text => (k.name.toList, text)) = some line) :
      line.1 = k.name.toList := by
    obtain ⟨text, -, rfl⟩ := Option.map_eq_some_iff.mp hline
    rfl
  rw [List.Nodup, List.pairwise_map, linesOf, List.pairwise_filterMap]
  refine h.imp fun {k k'} hne line hline line' hline' heq => hne ?_
  rw [hname hline, hname hline'] at heq
  exact ConfigKey.name_injective heq

/-- What is set is what the lines say. -/
theorem isSetting_iff_of_meaning
    (hmeaning : entries.meaning =
      (linesOf order settings).map fun line => (line.1, .string line.2))
    (hall : ∀ k, k ∈ order) :
    AllSet entries ∧
      ∀ k text, (∃ entry ∈ entries, IsSetting entry k text) ↔ settings k = some text := by
  have hmem (name : List Char) (value : Toml.Value) :
      (∃ entry ∈ entries, entry.1.name = name ∧ entry.2.2 = value) ↔
        ∃ k text, settings k = some text ∧ name = k.name.toList ∧ value = .string text := by
    have hsays : (name, value) ∈ entries.meaning ↔
        ∃ entry ∈ entries, entry.1.name = name ∧ entry.2.2 = value := by
      simp [Toml.Entries.meaning]
    rw [← hsays, hmeaning]
    rw [List.mem_map]
    constructor
    · rintro ⟨line, hline, heq⟩
      obtain ⟨k, -, text, hset, rfl⟩ := mem_linesOf hline
      obtain ⟨rfl, rfl⟩ := Prod.mk.inj heq
      exact ⟨k, text, hset, rfl, rfl⟩
    · rintro ⟨k, text, hset, rfl, rfl⟩
      have hline : (k.name.toList, text) ∈ linesOf order settings :=
        List.mem_filterMap.mpr ⟨k, hall k, by rw [hset]; rfl⟩
      exact ⟨_, hline, rfl⟩
  constructor
  · intro entry hentry
    obtain ⟨k, text, -, hname, hvalue⟩ := (hmem _ _).mp ⟨entry, hentry, rfl, rfl⟩
    exact ⟨k, text, hname, hvalue⟩
  · intro k text
    refine (hmem _ _).trans ⟨?_, fun hset => ⟨k, text, hset, rfl, rfl⟩⟩
    rintro ⟨k', text', hset, hname, hvalue⟩
    rw [ConfigKey.name_injective hname, Toml.Value.string.inj hvalue, hset]

/-- **Every configuration can be written down.** For any texts and any order of the keys, the document
with a line for each key that is set is a configuration file which sets exactly those texts. -/
theorem load_document (e : Toml.Escaping) (isEnded : Bool) (horder : order.Perm ConfigKey.all)
    (settings : ConfigKey → Option (List Char)) :
    ofText (document e isEnded order settings) = .ok (ofSettings settings) ∧
      ∀ fs path, FileSystem.read fs path = .ok (Utf8.encode (document e isEnded order settings)) →
        load fs path = .ok ((ofSettings settings).relativeTo (base path)) := by
  have hall : ∀ k, k ∈ order := by
    intro k
    rw [horder.mem_iff]
    cases k <;> decide
  have hdistinct : order.Nodup := horder.nodup_iff.mpr (by decide)
  have hwritten : ofText (document e isEnded order settings) = .ok (ofSettings settings) := by
    have hbare : ∀ line ∈ linesOf order settings, Toml.IsBareName line.1 := by
      intro line hline
      obtain ⟨k, -, text, -, rfl⟩ := mem_linesOf hline
      exact k.isBareName_name
    obtain ⟨entries, hdocument, hmeaning⟩ :=
      e.document?_document isEnded hbare (nodup_names_linesOf hdistinct settings)
    obtain ⟨hset, hsettings⟩ := isSetting_iff_of_meaning hmeaning hall
    have hsame : settingsOf entries = settings := by
      funext k
      refine Option.ext fun text => ?_
      rw [settingsOf_eq_some_iff (Toml.Entries.nodup_names_of_document? hdocument), hsettings]
    rw [document, ofText_of_allSet hdocument hset, hsame]
  refine ⟨hwritten, fun fs path hread => load_eq_ok_iff.mpr ⟨_, _, hread, ?_, rfl⟩⟩
  exact ⟨_, Utf8.decode?_eq_some_iff.mpr rfl, hwritten⟩

/-- Quotes, backslashes, control characters, white space and characters outside the basic plane are
read back, with the keys in an order of their own. -/
theorem load_document_of_controls :
    let text := "golden = \"a\\\\b\\u0000\\u000A\\u009F\"\nsubcommand = \" \\\"\\u0009\\\"😀\"\ntool = \"\"\n"
    let fs : FileSystem := ⟨[], [([Bytes.ofString "h.toml"], .file (Bytes.ofString text) false)]⟩
    load fs (Bytes.ofString "h.toml") = .ok
      { tool := some []
        subcommand := some " \"\t\"😀"
        capture := none
        golden := some (Bytes.ofString "a\\b\x00\n\u009f")
        scratchDir := none } := by
  intro text fs
  let order : List ConfigKey := [.golden, .subcommand, .capture, .tool, .scratchDir]
  let settings : ConfigKey → Option (List Char)
    | .golden => some "a\\b\x00\n\u009f".toList
    | .subcommand => some " \"\t\"😀".toList
    | .tool => some []
    | _ => none
  have hread : fs.read (Bytes.ofString "h.toml") =
      .ok (Utf8.encode (document .standard true order settings)) := by decide
  have horder : order.Perm ConfigKey.all := by decide
  exact (load_document .standard true horder settings).2 fs _ hread

end Reading

end GoldenHarness.ConfigFile

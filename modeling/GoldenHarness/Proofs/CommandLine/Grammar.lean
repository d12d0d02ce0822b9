import GoldenHarness.Proofs.CommandLine.Items

/-!
# The grammar of the command line

A command line that asks for a run is a sequence of items, with perhaps a separator at its end. The
reader has no other way through the words: each of them is an item, or one of the two words of an
option with its value.
-/

namespace GoldenHarness.CommandLine

namespace Progress

variable {p q : Progress}

/-! ## Words that can be read -/

theorem eq_nil_of_isSeparated {ws : List Bytes} (hp : p.isSeparated = true)
    (h : (ws.foldlM word p >>= settle) = .ok q) : ws = [] := by
  cases ws with
  | nil => rfl
  | cons w ws =>
    rw [List.foldlM_cons, word_of_isSeparated hp, other_of_unexpected (Or.inl hp)] at h
    cases h

theorem take_eq_ok {o : ValueOption} {v : Bytes} (h : p.take o v = .ok q) : v ≠ [] := by
  rintro rfl
  unfold take at h
  split at h
  · cases h
  · cases h

/-- A cluster that can be read consists of letters of flags. -/
theorem letters_eq_ok {tail : Bytes} (hne : tail ≠ []) (h : p.letters (Utf8.segments tail) = .ok q) :
    ∃ flags : List Flag, flags ≠ [] ∧
      tail = Bytes.ofString (String.ofList (flags.map Flag.letter)) ∧
        (flags.map Request.flag).foldlM request p = .ok q := by
  obtain ⟨flags, hflags | ⟨c, rest, hc, hflags⟩ | ⟨bytes, rest, hflags⟩⟩ :=
    letters_cases (Utf8.segments tail)
  · rw [hflags, letters_flags] at h
    refine ⟨flags, ?_, eq_letters_of_segments hflags, h⟩
    rintro rfl
    exact Utf8.segments_ne_nil hne hflags
  · rw [hflags, letters_append] at h
    obtain ⟨next, -, hrest⟩ := bind_eq_ok.mp h
    rw [letters_unknown next hc] at hrest
    cases hrest
  · rw [hflags, letters_append] at h
    obtain ⟨next, -, hrest⟩ := bind_eq_ok.mp h
    cases hrest

/-- Where an option waits for its value, the next word is that value. -/
theorem word_eq_ok_of_expecting {o : ValueOption} {w : Bytes} (hsep : p.isSeparated = false)
    (hp : p.waiting = some (o, none)) (h : p.word w = .ok q) :
    (IsPlain w ∧ q = { p with waiting := some (o, some w) }) ∨
      q = { p with isSeparated := true } := by
  have hsettle : ∀ s, p.settle ≠ .ok s := by
    intro s hs
    rw [settle_of_missing hp] at hs
    cases hs
  rcases word_cases w with rfl | ⟨rest, hrest, rfl⟩ | ⟨tail, htail, hdash, rfl⟩ | hplain
  · rw [word_separator hsep] at h
    cases h
    exact Or.inr rfl
  · -- every long option first takes up the one that waits, or is refused
    rw [word_long hsep hrest] at h
    obtain ⟨o', v, -, -, hlong⟩ | ⟨o', -, -, hlong⟩ | ⟨f, -, -, hlong⟩ | ⟨f, v, hlong⟩ |
        ⟨-, -, hlong⟩ := long_cases p (splitValue rest).1 (splitValue rest).2
    · rw [hlong] at h
      obtain ⟨s, hs, -⟩ := bind_eq_ok.mp h
      exact absurd hs (hsettle s)
    · rw [hlong] at h
      obtain ⟨s, hs, -⟩ := bind_eq_ok.mp h
      exact absurd hs (hsettle s)
    · rw [hlong, flag_eq] at h
      obtain ⟨s, hs, -⟩ := bind_eq_ok.mp h
      exact absurd hs (hsettle s)
    · rw [hlong] at h
      cases h
    · rw [hlong] at h
      cases h
  · rw [word_short hsep htail hdash] at h
    obtain ⟨flags, hne, -, hread⟩ := letters_eq_ok htail h
    rw [← settle_bind_requests (by simpa using hne)] at hread
    obtain ⟨s, hs, -⟩ := bind_eq_ok.mp hread
    exact absurd hs (hsettle s)
  · rw [word_plain hsep hplain, other_of_expecting hsep hp] at h
    cases h
    exact Or.inl ⟨hplain, rfl⟩

/-- Where an item is expected, a word that can be read is an item, the beginning of one whose value
is the next word, or the separator. -/
theorem word_eq_ok_of_isReady {w : Bytes} (hp : p.IsReady) (h : p.word w = .ok q) :
    (∃ item : Item, item.IsProper ∧ item.words = [w] ∧ q.IsReady) ∨
      (∃ o, w = separator ++ Bytes.ofString o.name ∧ q.isSeparated = false ∧
        q.waiting = some (o, none)) ∨
      w = separator ∧ q.isSeparated = true := by
  obtain ⟨hsep, hwaiting⟩ := hp
  rcases word_cases w with rfl | ⟨rest, hrest, rfl⟩ | ⟨tail, htail, hdash, rfl⟩ | hplain
  · rw [word_separator hsep] at h
    cases h
    exact Or.inr (Or.inr ⟨rfl, rfl⟩)
  · rw [word_long hsep hrest] at h
    rcases splitValue_cases rest with ⟨-, hsplit⟩ | ⟨name, v, -, rfl, hsplit⟩
    · rw [hsplit] at h
      obtain ⟨o, rfl⟩ | ⟨f, rfl⟩ | ⟨ho, hf⟩ := name_cases rest
      · rw [long_separate] at h
        obtain ⟨s, hs, hq⟩ := bind_eq_ok.mp h
        cases hq
        exact Or.inr (Or.inl ⟨o, rfl, (settle_eq_ok hs).2.1.trans hsep, rfl⟩)
      · rw [long_flag] at h
        obtain ⟨hhelp, hnone, hsep'⟩ := flag_eq_ok h
        exact Or.inl ⟨.flag f, hhelp, rfl, isReady_of_none (hsep'.trans hsep) hnone⟩
      · rw [long_unknown p ho hf] at h
        cases h
    · rw [hsplit] at h
      obtain ⟨o, rfl⟩ | ⟨f, rfl⟩ | ⟨ho, hf⟩ := name_cases name
      · rw [long_joined] at h
        obtain ⟨s, hs, htake⟩ := bind_eq_ok.mp h
        obtain ⟨hnone, hsep', -⟩ := settle_eq_ok hs
        obtain ⟨hwaiting', hsep''⟩ := take_waiting htake
        refine Or.inl ⟨.joined o v, take_eq_ok htake, rfl, ?_⟩
        exact isReady_of_none (hsep''.trans (hsep'.trans hsep)) (hwaiting'.trans hnone)
      · rw [long_flag_value] at h
        cases h
      · rw [long_unknown p ho hf] at h
        cases h
  · rw [word_short hsep htail hdash] at h
    obtain ⟨flags, hne, rfl, hread⟩ := letters_eq_ok htail h
    obtain ⟨hhelp, hnone, hsep'⟩ := requests_eq_ok (by simpa using hne) hread
    refine Or.inl ⟨.cluster flags, ⟨hne, fun hmem => hhelp ?_⟩, rfl, ?_⟩
    · exact List.mem_map_of_mem hmem
    · exact isReady_of_none (hsep'.trans hsep) hnone
  · rw [word_plain hsep hplain, other_of_unexpected (Or.inr hwaiting)] at h
    cases h

/-- Words that can be read to the end are those of items, after the value that is expected first, if
one is. -/
theorem exists_items {ws : List Bytes} (hsep : p.isSeparated = false)
    (h : (ws.foldlM word p >>= settle) = .ok q) :
    (∀ o, p.waiting = some (o, none) → ∃ v items isEnded, (v ≠ [] ∧ IsPlain v) ∧
        (∀ i ∈ items, Item.IsProper i) ∧ ws = v :: written items isEnded) ∧
      ((∀ o, p.waiting ≠ some (o, none)) →
        ∃ items isEnded, (∀ i ∈ items, Item.IsProper i) ∧ ws = written items isEnded) := by
  induction ws generalizing p with
  | nil =>
    refine ⟨fun o hp => ?_, fun _ => ⟨[], false, nofun, rfl⟩⟩
    have hsettle : p.settle = .ok q := h
    rw [settle_of_missing hp] at hsettle
    cases hsettle
  | cons w ws ih =>
    rw [List.foldlM_cons, bind_assoc] at h
    obtain ⟨next, hword, hrest⟩ := bind_eq_ok.mp h
    refine ⟨fun o hp => ?_, fun hp => ?_⟩
    · rcases word_eq_ok_of_expecting hsep hp hword with ⟨hplain, rfl⟩ | rfl
      · have hready : IsReady { p with waiting := some (o, some w) } := ⟨hsep, by simp⟩
        obtain ⟨items, isEnded, hitems, rfl⟩ := (ih hready.1 hrest).2 hready.2
        refine ⟨w, items, isEnded, ⟨?_, hplain⟩, hitems, rfl⟩
        rw [read_written hready hitems] at hrest
        obtain ⟨_, hsettled, -⟩ := bind_eq_ok.mp hrest
        obtain ⟨_, hsettle, -⟩ := bind_eq_ok.mp hsettled
        exact take_eq_ok hsettle
      · -- after the separator the option would wait for ever
        obtain rfl := eq_nil_of_isSeparated rfl hrest
        rw [List.foldlM_nil, pure_bind, settle_isSeparated, settle_of_missing hp] at hrest
        cases hrest
    · rcases word_eq_ok_of_isReady ⟨hsep, hp⟩ hword with
        ⟨item, hitem, hw, hready⟩ | ⟨o, rfl, hsep', hexpecting⟩ | ⟨rfl, hseparated⟩
      · obtain ⟨items, isEnded, hitems, rfl⟩ := (ih hready.1 hrest).2 hready.2
        refine ⟨item :: items, isEnded, List.forall_mem_cons.mpr ⟨hitem, hitems⟩, ?_⟩
        rw [written, written, List.flatMap_cons, hw]
        rfl
      · obtain ⟨v, items, isEnded, hv, hitems, rfl⟩ := (ih hsep' hrest).1 o hexpecting
        exact ⟨.separate o v :: items, isEnded, List.forall_mem_cons.mpr ⟨hv, hitems⟩, rfl⟩
      · obtain rfl := eq_nil_of_isSeparated hseparated hrest
        exact ⟨[], true, nofun, rfl⟩

end Progress

/-! ## The grammar -/

/-- What items ask for in an environment: each flag by counting, and each option by the value that was
requested, or else by its environment variable. -/
def settingsOf (items : List Item) (env : Environment) : Settings :=
  (tally (requested items)).completed env

/-- An option that is set neither by an item nor by an environment variable with a value may still
have its variable set, but not to the empty value. -/
def IsCompletable (items : List Item) (env : Environment) : Prop :=
  ∀ o, valuesFor o (requested items) = [] → env.lookup o.envVariable ≠ some []

theorem parse_eq_run {words : List Bytes} {env : Environment} {s : Settings} :
    parse words env = .run s ↔ Progress.read words env = .ok s := by
  rw [parse]
  cases Progress.read words env with
  | ok t => simp
  | error e => cases e <;> simp

/-- A command line that asks for a run is one of items. -/
theorem exists_items_of_run {words : List Bytes} {env : Environment} {s : Settings}
    (h : parse words env = .run s) :
    ∃ items isEnded, (∀ i ∈ items, Item.IsProper i) ∧ words = written items isEnded := by
  rw [parse_eq_run, Progress.read, ← bind_assoc] at h
  obtain ⟨q, hread, -⟩ := bind_eq_ok.mp h
  exact (Progress.exists_items rfl hread).2 (by simp [Progress.start])

/-- A command line of items asks for a run exactly if the items may stand together and no variable
that counts is empty. -/
theorem parse_written_iff {items : List Item} (hitems : ∀ i ∈ items, i.IsProper) (isEnded : Bool)
    (env : Environment) (s : Settings) :
    parse (written items isEnded) env = .run s ↔
      AtMostOnce (requested items) ∧ IsCompletable items env ∧ s = settingsOf items env := by
  have hcomplete : (∀ o ∈ ValueOption.all, (tally (requested items)).get o = none →
      env.lookup o.envVariable ≠ some []) ↔ IsCompletable items env := by
    refine forall_congr' fun o => ?_
    have hmem : o ∈ ValueOption.all := by cases o <;> decide
    simp only [hmem, forall_const, Settings.get_tally, List.head?_eq_none_iff]
  rw [parse_eq_run, Progress.read_eq hitems, bind_eq_ok]
  simp only [grants_eq_ok_iff fun r => isProper_of_mem_requested hitems, Settings.fills_eq_ok_iff,
    Settings.foldl_filled]
  constructor
  · rintro ⟨_, ⟨honce, rfl⟩, hfill, rfl⟩
    exact ⟨honce, hcomplete.mp hfill, rfl⟩
  · rintro ⟨honce, hcompletable, rfl⟩
    exact ⟨_, ⟨honce, rfl⟩, hcomplete.mpr hcompletable, rfl⟩

/-- What items come to depends on what they ask for, and not on its order or on the words in which it
is put. -/
theorem parse_written_of_perm {items items' : List Item} (hitems : ∀ i ∈ items, i.IsProper)
    (hitems' : ∀ i ∈ items', i.IsProper) (h : (requested items).Perm (requested items'))
    (isEnded isEnded' : Bool) (env : Environment) (s : Settings) :
    parse (written items isEnded) env = .run s ↔ parse (written items' isEnded') env = .run s := by
  have hcompletable : IsCompletable items env ↔ IsCompletable items' env := by
    refine forall_congr' fun o => ?_
    rw [← List.length_eq_zero_iff, ← List.length_eq_zero_iff, (valuesFor_perm h o).length_eq]
  rw [parse_written_iff hitems, parse_written_iff hitems', ← atMostOnce_of_perm h, hcompletable]
  refine and_congr_right fun honce => ?_
  rw [settingsOf, settingsOf, tally_of_perm h honce]

/-- **The grammar of the command line.** A command line asks for a run exactly if its words are those of
items that may stand together, with perhaps a separator at the end, and no variable that counts is
empty; the run is then what the items and the environment add up to. In particular items may stand in
any order. -/
theorem parse_eq_run_iff (env : Environment) :
    (∀ words s, parse words env = .run s ↔
      ∃ items isEnded, (∀ i ∈ items, i.IsProper) ∧ words = written items isEnded ∧
        AtMostOnce (requested items) ∧ IsCompletable items env ∧ s = settingsOf items env) ∧
    ∀ items items', (∀ i ∈ items, i.IsProper) → items.Perm items' → ∀ isEnded isEnded' s,
      parse (written items isEnded) env = .run s ↔ parse (written items' isEnded') env = .run s := by
  refine ⟨fun words s => ⟨fun h => ?_, ?_⟩, fun items items' hitems hperm => ?_⟩
  · obtain ⟨items, isEnded, hitems, rfl⟩ := exists_items_of_run h
    exact ⟨items, isEnded, hitems, rfl, (parse_written_iff hitems isEnded env s).mp h⟩
  · rintro ⟨items, isEnded, hitems, rfl, hs⟩
    exact (parse_written_iff hitems isEnded env s).mpr hs
  · have hitems' : ∀ i ∈ items', i.IsProper := fun i hi => hitems i (hperm.mem_iff.mpr hi)
    exact fun isEnded isEnded' s =>
      parse_written_of_perm hitems hitems' (hperm.flatMap_right _) isEnded isEnded' env s

/-- Items of three forms and a variable, in two orders, the second with a separator behind them. -/
theorem parse_run_of_mixed_items :
    let env : Environment := [("TRACE_GOLDEN_EXPECTED", Bytes.ofString "e.ok")]
    let settings : Settings :=
      { generate := true
        config := some (Bytes.ofString "h.toml")
        tool := some (Bytes.ofString "-")
        capture := none
        golden := some (Bytes.ofString "e.ok")
        verbosity := 2 }
    parse (["-vov", "--config=h.toml", "--tool", "-"].map Bytes.ofString) env = .run settings ∧
      parse (["--tool", "-", "-vov", "--config=h.toml", "--"].map Bytes.ofString) env =
        .run settings := by
  intro env settings
  have hgrammar := parse_eq_run_iff env
  let cluster : Item := .cluster [.verbose, .generate, .verbose]
  let config : Item := .joined .config (Bytes.ofString "h.toml")
  let tool : Item := .separate .tool (Bytes.ofString "-")
  have hproper : ∀ i ∈ [cluster, config, tool], i.IsProper := by decide
  have hrun : parse (written [cluster, config, tool] false) env = .run settings :=
    (hgrammar.1 _ _).mpr ⟨_, _, hproper, rfl, ⟨by decide, fun o => by cases o <;> decide⟩,
      fun o => by cases o <;> decide, by decide⟩
  have hperm : [cluster, config, tool].Perm [tool, cluster, config] := by decide
  refine ⟨?_, ?_⟩
  · exact hrun
  · exact (hgrammar.2 _ _ hproper hperm false true settings).mp hrun

end GoldenHarness.CommandLine

import GoldenHarness.Proofs.CommandLine.Requests

/-!
# Reading items

The items of a command line have one or two words each. An option whose value is a word of its own is
taken up late, so what a reader in the middle of a command line has to say is told by what it says once
the option that waits is taken up: from there on, reading an item is granting its requests one after
the other.
-/

namespace GoldenHarness.CommandLine

/-! ## Items -/

/-- An item of a command line. -/
inductive Item where
  /-- Short flags behind one dash. -/
  | cluster (flags : List Flag)
  /-- A flag by its long name. -/
  | flag (f : Flag)
  /-- An option with its value behind an equals sign. -/
  | joined (o : ValueOption) (v : Bytes)
  /-- An option with its value in the next word. -/
  | separate (o : ValueOption) (v : Bytes)
deriving DecidableEq, Repr

namespace Item

/-- The words of an item. -/
def words : Item → List Bytes
  | cluster flags => [dash :: Bytes.ofString (String.ofList (flags.map Flag.letter))]
  | flag f => [separator ++ Bytes.ofString f.name]
  | joined o v => [separator ++ (Bytes.ofString o.name ++ equals :: v)]
  | separate o v => [separator ++ Bytes.ofString o.name, v]

/-- What an item asks for. -/
def requests : Item → List Request
  | cluster flags => flags.map .flag
  | flag f => [.flag f]
  | joined o v | separate o v => [.value o v]

/-- An item of a command line that asks for a run: no flag is the one for help, a cluster has a
letter, and a value is not empty and, as a word of its own, does not look like an option. -/
def IsProper : Item → Prop
  | cluster flags => flags ≠ [] ∧ .help ∉ flags
  | flag f => f ≠ .help
  | joined _ v => v ≠ []
  | separate _ v => v ≠ [] ∧ IsPlain v

instance : DecidablePred IsProper
  | cluster flags => inferInstanceAs (Decidable (flags ≠ [] ∧ .help ∉ flags))
  | flag f => inferInstanceAs (Decidable (f ≠ .help))
  | joined _ v => inferInstanceAs (Decidable (v ≠ []))
  | separate _ v => inferInstanceAs (Decidable (v ≠ [] ∧ IsPlain v))

end Item

/-- The words of items, with or without a separator at the end. -/
def written (items : List Item) (isEnded : Bool) : List Bytes :=
  items.flatMap Item.words ++ if isEnded then [separator] else []

/-- What items ask for. -/
def requested (items : List Item) : List Request := items.flatMap Item.requests

theorem isProper_of_mem_requested {items : List Item} (h : ∀ i ∈ items, i.IsProper) {r : Request}
    (hr : r ∈ requested items) : r.IsProper := by
  obtain ⟨item, hmem, hr⟩ := List.mem_flatMap.mp hr
  have hproper := h item hmem
  cases item with
  | cluster flags =>
    obtain ⟨f, hf, rfl⟩ := List.mem_map.mp hr
    rintro rfl
    exact hproper.2 hf
  | flag f =>
    obtain rfl := List.mem_singleton.mp hr
    exact hproper
  | joined o v =>
    obtain rfl := List.mem_singleton.mp hr
    exact hproper
  | separate o v =>
    obtain rfl := List.mem_singleton.mp hr
    exact hproper.1

/-! ## The letters of a cluster -/

theorem ofString_letters_cons (f : Flag) (flags : List Flag) :
    Bytes.ofString (String.ofList ((f :: flags).map Flag.letter)) =
      UInt8.ofNat f.letter.toNat :: Bytes.ofString (String.ofList (flags.map Flag.letter)) := by
  have hletter : String.utf8EncodeChar f.letter = [UInt8.ofNat f.letter.toNat] := by
    cases f <;> decide
  simp [Bytes.ofString, Utf8.encode, hletter]

theorem segments_letters (flags : List Flag) :
    Utf8.segments (Bytes.ofString (String.ofList (flags.map Flag.letter))) =
      flags.map fun f => .scalar f.letter := by
  induction flags with
  | nil => rfl
  | cons f flags ih =>
    have hascii : UInt8.ofNat f.letter.toNat < 0x80 := by cases f <;> decide
    have hbyte : Char.ofNat (UInt8.ofNat f.letter.toNat).toNat = f.letter := by cases f <;> decide
    rw [ofString_letters_cons, Utf8.segments_cons_of_ascii hascii, ih, hbyte, List.map_cons]

/-- Bytes that read as letters of flags are those letters. -/
theorem eq_letters_of_segments {bs : Bytes} {flags : List Flag}
    (h : Utf8.segments bs = flags.map fun f => .scalar f.letter) :
    bs = Bytes.ofString (String.ofList (flags.map Flag.letter)) := by
  induction flags generalizing bs with
  | nil =>
    by_contra hne
    exact Utf8.segments_ne_nil hne h
  | cons f flags ih =>
    have h0 : f.letter.toNat ≠ 0 := by cases f <;> decide
    have hascii : f.letter.toNat < 0x80 := by cases f <;> decide
    obtain ⟨rest, rfl, hrest⟩ := Utf8.eq_cons_of_segments h0 hascii h
    rw [ofString_letters_cons, ih hrest]

theorem head?_letters_ne_dash (flags : List Flag) :
    (Bytes.ofString (String.ofList (flags.map Flag.letter))).head? ≠ some dash := by
  cases flags with
  | nil => decide
  | cons f flags =>
    rw [ofString_letters_cons, List.head?_cons]
    cases f <;> decide

theorem letters_ne_nil {flags : List Flag} (h : flags ≠ []) :
    Bytes.ofString (String.ofList (flags.map Flag.letter)) ≠ [] := by
  obtain ⟨f, rest, rfl⟩ := List.exists_cons_of_ne_nil h
  rw [ofString_letters_cons]
  simp

theorem name_ne_nil (o : ValueOption) : Bytes.ofString o.name ≠ [] := by
  cases o <;> decide

theorem flagName_ne_nil (f : Flag) : Bytes.ofString f.name ≠ [] := by
  cases f <;> decide

namespace Progress

variable {p q : Progress}

/-! ## Reading items -/

/-- Takes up a request. -/
def request (p : Progress) : Request → Except Stop Progress
  | .flag f => p.flag f
  | .value o v => p.settle >>= fun q => q.take o v

/-- A reader that expects an item: it is not past the separator, and no option waits for its value. -/
def IsReady (p : Progress) : Prop := p.isSeparated = false ∧ ∀ o, p.waiting ≠ some (o, none)

theorem isReady_of_none (hsep : p.isSeparated = false) (h : p.waiting = none) : p.IsReady :=
  ⟨hsep, fun o => by simp [h]⟩

theorem request_eq (p : Progress) (r : Request) :
    p.request r = p.settle >>= fun q => q.request r := by
  cases r with
  | flag f => exact flag_eq p f
  | value o v =>
    cases hsettle : p.settle with
    | error e =>
      rw [request, hsettle]
      rfl
    | ok q =>
      rw [bind_ok, request, request, hsettle, (settle_eq_ok hsettle).2.2]

theorem request_eq_ok {r : Request} (h : p.request r = .ok q) :
    r ≠ .flag .help ∧ q.waiting = none ∧ q.isSeparated = p.isSeparated := by
  cases r with
  | flag f =>
    obtain ⟨hhelp, hq⟩ := flag_eq_ok h
    refine ⟨?_, hq⟩
    rintro ⟨⟩
    exact hhelp rfl
  | value o v =>
    obtain ⟨settled, hsettle, htake⟩ := bind_eq_ok.mp h
    obtain ⟨hwaiting, hseparated, -⟩ := settle_eq_ok hsettle
    obtain ⟨hwaiting', hseparated'⟩ := take_waiting htake
    exact ⟨nofun, hwaiting'.trans hwaiting, hseparated'.trans hseparated⟩

/-- Requests that are taken up, where there is at least one, leave nothing that waits. -/
theorem requests_eq_ok {rs : List Request} (hne : rs ≠ []) (h : rs.foldlM request p = .ok q) :
    .flag .help ∉ rs ∧ q.waiting = none ∧ q.isSeparated = p.isSeparated := by
  induction rs generalizing p with
  | nil => exact absurd rfl hne
  | cons r rest ih =>
    rw [List.foldlM_cons] at h
    obtain ⟨next, hrequest, hrest⟩ := bind_eq_ok.mp h
    obtain ⟨hhelp, hwaiting, hseparated⟩ := request_eq_ok hrequest
    cases rest with
    | nil =>
      cases hrest
      exact ⟨by simpa using hhelp.symm, hwaiting, hseparated⟩
    | cons r' rest =>
      obtain ⟨hrestHelp, hrestWaiting, hrestSeparated⟩ := ih (by simp) hrest
      refine ⟨?_, hrestWaiting, hrestSeparated.trans hseparated⟩
      rw [List.mem_cons, not_or]
      exact ⟨hhelp.symm, hrestHelp⟩

/-- Taking up what waits, and then one request or more, is taking up the requests. -/
theorem settle_bind_requests {rs : List Request} (hne : rs ≠ []) (p : Progress) :
    (p.settle >>= fun q => rs.foldlM request q) = rs.foldlM request p := by
  obtain ⟨r, rest, rfl⟩ := List.exists_cons_of_ne_nil hne
  rw [List.foldlM_cons, request_eq p r, bind_assoc]
  rfl

theorem requests_bind_settle {rs : List Request} (hne : rs ≠ []) (p : Progress) :
    (rs.foldlM request p >>= settle) = rs.foldlM request p := by
  cases hrs : rs.foldlM request p with
  | error e => rfl
  | ok q => rw [bind_ok, settle_of_none (requests_eq_ok hne hrs).2.1]

theorem letters_flags (p : Progress) (flags : List Flag) :
    p.letters (flags.map fun f => .scalar f.letter) = (flags.map Request.flag).foldlM request p := by
  have happend := letters_append p flags []
  rw [List.append_nil] at happend
  rw [happend, List.foldlM_map]
  exact bind_pure _

theorem requests_ne_nil {item : Item} (h : item.IsProper) : item.requests ≠ [] := by
  cases item with
  | cluster flags => simpa [Item.requests] using h.1
  | flag f => exact List.cons_ne_nil _ _
  | joined o v => exact List.cons_ne_nil _ _
  | separate o v => exact List.cons_ne_nil _ _

theorem foldlM_word_singleton (p : Progress) (w : Bytes) : [w].foldlM word p = p.word w := by
  rw [List.foldlM_cons]
  exact bind_pure _

theorem read_cluster (hsep : p.isSeparated = false) {flags : List Flag} (hne : flags ≠ []) :
    (Item.cluster flags).words.foldlM word p = (Item.cluster flags).requests.foldlM request p := by
  rw [Item.words, foldlM_word_singleton, word_short hsep (letters_ne_nil hne)
    (head?_letters_ne_dash flags), segments_letters, letters_flags]
  rfl

theorem read_flag (hsep : p.isSeparated = false) (f : Flag) :
    (Item.flag f).words.foldlM word p = (Item.flag f).requests.foldlM request p := by
  rw [Item.words, foldlM_word_singleton, word_long hsep (flagName_ne_nil f),
    splitValue_of_not_mem (equals_not_mem_flag f), long_flag, Item.requests, List.foldlM_cons]
  exact (bind_pure _).symm

theorem read_joined (hsep : p.isSeparated = false) (o : ValueOption) (v : Bytes) :
    (Item.joined o v).words.foldlM word p = (Item.joined o v).requests.foldlM request p := by
  rw [Item.words, foldlM_word_singleton, word_long hsep (by simp),
    splitValue_append (equals_not_mem_option o), long_joined, Item.requests, List.foldlM_cons]
  exact (bind_pure _).symm

theorem read_separate (hsep : p.isSeparated = false) (o : ValueOption) {v : Bytes} (hv : IsPlain v) :
    (Item.separate o v).words.foldlM word p =
      p.settle >>= fun q => .ok { q with waiting := some (o, some v) } := by
  rw [Item.words, List.foldlM_cons, word_long hsep (name_ne_nil o),
    splitValue_of_not_mem (equals_not_mem_option o), long_separate, bind_assoc]
  cases hsettle : p.settle with
  | error e => rfl
  | ok q =>
    have hq : q.isSeparated = false := (settle_eq_ok hsettle).2.1.trans hsep
    rw [bind_ok, bind_ok, bind_ok, foldlM_word_singleton, word_plain (by exact hq) hv,
      other_of_expecting (by exact hq) rfl]

/-- Reading an item is taking up what it asks for, as far as can be told once nothing waits. -/
theorem read_item {item : Item} (hp : p.IsReady) (hitem : item.IsProper) :
    (item.words.foldlM word p >>= settle) = p.settle >>= fun q => item.requests.foldlM request q := by
  obtain ⟨hsep, -⟩ := hp
  rw [settle_bind_requests (requests_ne_nil hitem)]
  cases item with
  | cluster flags => rw [read_cluster hsep hitem.1, requests_bind_settle (requests_ne_nil hitem)]
  | flag f => rw [read_flag hsep, requests_bind_settle (requests_ne_nil hitem)]
  | joined o v => rw [read_joined hsep, requests_bind_settle (requests_ne_nil hitem)]
  | separate o v =>
    -- this item is left waiting, so it takes the `settle` behind it to take it up
    rw [read_separate hsep o hitem.2, Item.requests, List.foldlM_cons]
    show _ = p.request (.value o v) >>= pure
    rw [request_eq, bind_pure, bind_assoc]
    cases hsettle : p.settle with
    | error e => rfl
    | ok q =>
      obtain ⟨settings, hasOptions, waiting, isSeparated⟩ := q
      obtain rfl : waiting = none := (settle_eq_ok hsettle).1
      rfl

/-- After an item, the next one is expected. -/
theorem isReady_of_item {item : Item} (hp : p.IsReady) (hitem : item.IsProper)
    (h : item.words.foldlM word p = .ok q) : q.IsReady := by
  obtain ⟨hsep, -⟩ := hp
  have hnow (hread : item.words.foldlM word p = item.requests.foldlM request p) : q.IsReady := by
    rw [hread] at h
    obtain ⟨-, hwaiting, hseparated⟩ := requests_eq_ok (requests_ne_nil hitem) h
    exact isReady_of_none (hseparated.trans hsep) hwaiting
  cases item with
  | cluster flags => exact hnow (read_cluster hsep hitem.1)
  | flag f => exact hnow (read_flag hsep f)
  | joined o v => exact hnow (read_joined hsep o v)
  | separate o v =>
    rw [read_separate hsep o hitem.2] at h
    obtain ⟨settled, hsettle, hq⟩ := bind_eq_ok.mp h
    cases hq
    exact ⟨(settle_eq_ok hsettle).2.1.trans hsep, nofun⟩

theorem isReady_of_items {items : List Item} (hp : p.IsReady) (hitems : ∀ i ∈ items, i.IsProper)
    (h : (items.flatMap Item.words).foldlM word p = .ok q) : q.IsReady := by
  induction items generalizing p with
  | nil =>
    cases h
    exact hp
  | cons item items ih =>
    rw [List.forall_mem_cons] at hitems
    rw [List.flatMap_cons, List.foldlM_append] at h
    obtain ⟨next, hread, hrest⟩ := bind_eq_ok.mp h
    exact ih (isReady_of_item hp hitems.1 hread) hitems.2 hrest

/-- Reading items is taking up what they ask for. -/
theorem read_items {items : List Item} (hp : p.IsReady) (hitems : ∀ i ∈ items, i.IsProper) :
    ((items.flatMap Item.words).foldlM word p >>= settle) =
      p.settle >>= fun q => (requested items).foldlM request q := by
  induction items generalizing p with
  | nil => exact (bind_pure _).symm
  | cons item items ih =>
    rw [List.forall_mem_cons] at hitems
    have hitem := read_item hp hitems.1
    -- what the item leaves waiting is taken up by the next one, or at the end
    rw [List.flatMap_cons, List.foldlM_append, requested, List.flatMap_cons]
    simp only [List.foldlM_append]
    rw [← bind_assoc p.settle, ← hitem]
    cases hread : item.words.foldlM word p with
    | error e => rfl
    | ok q => exact ih (isReady_of_item hp hitems.1 hread) hitems.2

/-! ## The separator -/

/-- What waits is taken up in the same way before and after the separator. -/
theorem settle_isSeparated (p : Progress) (isSeparated : Bool) :
    { p with isSeparated }.settle = p.settle >>= fun q => .ok { q with isSeparated } := by
  unfold settle
  dsimp only
  split
  · rfl
  · rfl
  · next o v _ =>
    unfold take
    dsimp only
    split
    · rfl
    split
    · rfl
    · rfl

/-- A separator at the end changes nothing but that it was read. -/
theorem read_written {items : List Item} (hp : p.IsReady) (hitems : ∀ i ∈ items, i.IsProper)
    (isEnded : Bool) :
    ((written items isEnded).foldlM word p >>= settle) =
      (p.settle >>= fun q => (requested items).foldlM request q) >>= fun q =>
        .ok { q with isSeparated := q.isSeparated || isEnded } := by
  rw [← read_items hp hitems, written, List.foldlM_append]
  cases hread : (items.flatMap Item.words).foldlM word p with
  | error e => rfl
  | ok q =>
    rw [bind_ok, bind_ok]
    cases isEnded with
    | false =>
      simp only [Bool.or_false]
      exact (bind_pure _).symm
    | true =>
      have hq : q.isSeparated = false := (isReady_of_items hp hitems hread).1
      rw [if_pos rfl, foldlM_word_singleton, word_separator hq, bind_ok, settle_isSeparated]
      simp only [Bool.or_true]

/-! ## Settings -/

/-- Reading that only looks at the settings can be told by what it does to them. -/
theorem map_foldlM {α : Type} {f : Progress → α → Except Stop Progress}
    {g : Settings → α → Except Stop Settings} {I : Progress → Prop}
    (hstep : ∀ p a, I p → (f p a).map settings = g p.settings a)
    (hkept : ∀ p a q, I p → f p a = .ok q → I q) (xs : List α) {p : Progress} (hp : I p) :
    (xs.foldlM f p).map settings = xs.foldlM g p.settings := by
  induction xs generalizing p with
  | nil => rfl
  | cons x xs ih =>
    rw [List.foldlM_cons, List.foldlM_cons, ← hstep p x hp]
    cases hx : f p x with
    | error e => rfl
    | ok q => exact ih (hkept p x q hp hx)

theorem map_take (p : Progress) (o : ValueOption) (v : Bytes) :
    (p.take o v).map settings = p.settings.grant (.value o v) := by
  rw [take, Settings.grant]
  split
  · rfl
  split
  · rfl
  · rfl

theorem map_request {p : Progress} (hp : p.waiting = none) (r : Request) :
    (p.request r).map settings = p.settings.grant r := by
  cases r with
  | value o v =>
    rw [request, settle_of_none hp, bind_ok, map_take]
  | flag f =>
    rw [request, flag, settle_of_none hp, bind_ok]
    cases f with
    | help => rfl
    | verbose => rfl
    | generate =>
      rw [Settings.grant]
      dsimp only
      split <;> rfl

theorem map_fromEnvironment (env : Environment) (p : Progress) (o : ValueOption) :
    (fromEnvironment env p o).map settings = p.settings.fill env o := by
  rw [fromEnvironment, Settings.fill]
  cases p.settings.get o with
  | some v => rfl
  | none =>
    cases env.lookup o.envVariable with
    | none => rfl
    | some v => exact map_take p o v

/-- What the environment adds depends on the settings only. -/
theorem map_environment (env : Environment) (p : Progress) :
    (do let q ← ValueOption.all.foldlM (fromEnvironment env) p; pure q.settings) =
      ValueOption.all.foldlM (Settings.fill env) p.settings := by
  have hstep : ∀ p o, True → (fromEnvironment env p o).map settings = p.settings.fill env o :=
    fun p o _ => map_fromEnvironment env p o
  rw [← map_foldlM hstep (fun _ _ _ _ _ => trivial) ValueOption.all trivial]
  cases ValueOption.all.foldlM (fromEnvironment env) p <;> rfl

theorem map_requests (rs : List Request) :
    (rs.foldlM request start).map settings = rs.foldlM Settings.grant .initial :=
  map_foldlM (fun _ r hp => map_request hp r) (fun _ _ _ _ h => (request_eq_ok h).2.1) rs rfl

/-- Reading a command line is granting what its items ask for, one after the other, and then filling
in what the environment says. -/
theorem read_eq {items : List Item} (hitems : ∀ i ∈ items, i.IsProper) (isEnded : Bool)
    (env : Environment) :
    read (written items isEnded) env =
      (requested items).foldlM Settings.grant .initial >>= fun s =>
        ValueOption.all.foldlM (Settings.fill env) s := by
  have hready : start.IsReady := isReady_of_none rfl rfl
  rw [read, ← bind_assoc, read_written hready hitems, settle_of_none rfl, bind_ok, ← map_requests]
  cases (requested items).foldlM request start with
  | error e => rfl
  | ok q => exact map_environment env _

end Progress

end GoldenHarness.CommandLine

import GoldenHarness.Proofs.CommandLine.Words
import Mathlib.Data.List.Induction

/-!
# What options and the environment add up to

Apart from the words in which it is put, a command line is a list of requests: flags, and options with
their values. Whether they may stand together and what they come to can be told by counting them. The
environment then sets the options for which no value was requested.
-/

namespace GoldenHarness.CommandLine

/-- What a flag or an option asks for. -/
inductive Request where
  /-- A flag. -/
  | flag (f : Flag)
  /-- An option with its value. -/
  | value (o : ValueOption) (v : Bytes)
deriving DecidableEq, Repr

/-- The values that are requested for an option. -/
def valuesFor (o : ValueOption) (rs : List Request) : List Bytes :=
  rs.filterMap fun
    | .value o' v => if o' = o then some v else none
    | .flag _ => none

/-- How often a flag is requested. -/
def countOf (f : Flag) (rs : List Request) : Nat := rs.count (.flag f)

/-- The generate flag stands at most once, and every option at most once. -/
def AtMostOnce (rs : List Request) : Prop :=
  countOf .generate rs ≤ 1 ∧ ∀ o, (valuesFor o rs).length ≤ 1

/-- A request of a run: no request for help, and no option with an empty value. -/
def Request.IsProper : Request → Prop
  | flag f => f ≠ .help
  | value _ v => v ≠ []

/-- What requests come to if the environment is left out. -/
def tally (rs : List Request) : Settings where
  generate := 0 < countOf .generate rs
  config := (valuesFor .config rs).head?
  tool := (valuesFor .tool rs).head?
  capture := (valuesFor .capture rs).head?
  golden := (valuesFor .golden rs).head?
  verbosity := min Settings.maxVerbosity (countOf .verbose rs)

namespace Settings

/-- Settings with the environment's values for the options that are not set. -/
def completed (env : Environment) (s : Settings) : Settings :=
  { s with
    config := s.config.or (env.lookup ValueOption.config.envVariable)
    tool := s.tool.or (env.lookup ValueOption.tool.envVariable)
    capture := s.capture.or (env.lookup ValueOption.capture.envVariable)
    golden := s.golden.or (env.lookup ValueOption.golden.envVariable) }

/-- Settings are told apart by the flags and by the values of the options. -/
theorem ext_get {s t : Settings} (hgenerate : s.generate = t.generate)
    (hverbosity : s.verbosity = t.verbosity) (h : ∀ o, s.get o = t.get o) : s = t := by
  obtain ⟨generate, config, tool, capture, golden, verbosity⟩ := s
  obtain ⟨generate', config', tool', capture', golden', verbosity'⟩ := t
  obtain rfl : generate = generate' := hgenerate
  obtain rfl : verbosity = verbosity' := hverbosity
  obtain rfl : config = config' := h .config
  obtain rfl : tool = tool' := h .tool
  obtain rfl : capture = capture' := h .capture
  obtain rfl : golden = golden' := h .golden
  rfl

theorem get_set (s : Settings) (o o' : ValueOption) (v : Bytes) :
    (s.set o v).get o' = if o' = o then some v else s.get o' := by
  cases o <;> cases o' <;> rfl

theorem generate_set (s : Settings) (o : ValueOption) (v : Bytes) :
    (s.set o v).generate = s.generate := by
  cases o <;> rfl

theorem verbosity_set (s : Settings) (o : ValueOption) (v : Bytes) :
    (s.set o v).verbosity = s.verbosity := by
  cases o <;> rfl

theorem get_tally (rs : List Request) (o : ValueOption) :
    (tally rs).get o = (valuesFor o rs).head? := by
  cases o <;> rfl

theorem get_completed (env : Environment) (s : Settings) (o : ValueOption) :
    (s.completed env).get o = (s.get o).or (env.lookup o.envVariable) := by
  cases o <;> rfl

/-- Grants a request, unless it was granted before or cannot be. -/
def grant (s : Settings) : Request → Except Stop Settings
  | .flag .help => .error .help
  | .flag .verbose => .ok { s with verbosity := min maxVerbosity (s.verbosity + 1) }
  | .flag .generate =>
    if s.generate then .error (.invalid .repeatedGenerate) else .ok { s with generate := true }
  | .value o v =>
    if (s.get o).isSome then .error (.invalid (.repeatedOption o))
    else if v = [] then .error (.invalid (.missingValue o))
    else .ok (s.set o v)

end Settings

/-! ## Counting requests -/

section Counting

variable (rs : List Request)

theorem countOf_append_flag (f f' : Flag) :
    countOf f (rs ++ [.flag f']) = countOf f rs + if f' = f then 1 else 0 := by
  by_cases h : f' = f <;> simp [countOf, h]

theorem countOf_append_value (f : Flag) (o : ValueOption) (v : Bytes) :
    countOf f (rs ++ [.value o v]) = countOf f rs := by
  simp [countOf]

theorem valuesFor_append_flag (o : ValueOption) (f : Flag) :
    valuesFor o (rs ++ [.flag f]) = valuesFor o rs := by
  rw [valuesFor, List.filterMap_append]
  exact List.append_nil _

theorem valuesFor_append_value (o o' : ValueOption) (v : Bytes) :
    valuesFor o (rs ++ [.value o' v]) = valuesFor o rs ++ if o' = o then [v] else [] := by
  rw [valuesFor, List.filterMap_append]
  by_cases h : o' = o <;> simp [valuesFor, h]

theorem atMostOnce_append_verbose : AtMostOnce (rs ++ [.flag .verbose]) ↔ AtMostOnce rs := by
  unfold AtMostOnce
  simp [countOf_append_flag, valuesFor_append_flag]

theorem atMostOnce_append_generate :
    AtMostOnce (rs ++ [.flag .generate]) ↔ AtMostOnce rs ∧ countOf .generate rs = 0 := by
  unfold AtMostOnce
  simp only [countOf_append_flag, valuesFor_append_flag, if_true]
  constructor
  · rintro ⟨hcount, hvalues⟩
    exact ⟨⟨by omega, hvalues⟩, by omega⟩
  · rintro ⟨⟨-, hvalues⟩, hcount⟩
    exact ⟨by omega, hvalues⟩

theorem atMostOnce_append_value (o : ValueOption) (v : Bytes) :
    AtMostOnce (rs ++ [.value o v]) ↔ AtMostOnce rs ∧ valuesFor o rs = [] := by
  unfold AtMostOnce
  simp only [countOf_append_value, valuesFor_append_value, List.length_append]
  constructor
  · rintro ⟨hcount, hvalues⟩
    refine ⟨⟨hcount, fun o' => ?_⟩, ?_⟩
    · have := hvalues o'
      omega
    · have := hvalues o
      rw [if_pos rfl, List.length_singleton] at this
      exact List.length_eq_zero_iff.mp (by omega)
  · rintro ⟨⟨hcount, hvalues⟩, hnil⟩
    refine ⟨hcount, fun o' => ?_⟩
    by_cases h : o = o'
    · rw [← h, hnil, if_pos rfl]
      simp
    · rw [if_neg h]
      exact hvalues o'

theorem tally_append_verbose :
    tally (rs ++ [.flag .verbose]) =
      { tally rs with verbosity := min Settings.maxVerbosity ((tally rs).verbosity + 1) } := by
  refine Settings.ext_get ?_ ?_ fun o => ?_
  · unfold tally
    simp [countOf_append_flag]
  · unfold tally
    simp only [countOf_append_flag, if_true]
    omega
  · rw [Settings.get_tally, valuesFor_append_flag, ← Settings.get_tally]
    cases o <;> rfl

theorem tally_append_generate :
    tally (rs ++ [.flag .generate]) = { tally rs with generate := true } := by
  refine Settings.ext_get ?_ ?_ fun o => ?_
  · unfold tally
    simp [countOf_append_flag]
  · unfold tally
    simp [countOf_append_flag]
  · rw [Settings.get_tally, valuesFor_append_flag, ← Settings.get_tally]
    cases o <;> rfl

theorem tally_append_value {o : ValueOption} (h : valuesFor o rs = []) (v : Bytes) :
    tally (rs ++ [.value o v]) = (tally rs).set o v := by
  refine Settings.ext_get ?_ ?_ fun o' => ?_
  · rw [Settings.generate_set]
    unfold tally
    simp only [countOf_append_value]
  · rw [Settings.verbosity_set]
    unfold tally
    simp only [countOf_append_value]
  · rw [Settings.get_tally, Settings.get_set, valuesFor_append_value]
    by_cases ho : o' = o
    · rw [if_pos ho, if_pos ho.symm, ho, h]
      rfl
    · rw [if_neg ho, if_neg (Ne.symm ho), List.append_nil, Settings.get_tally]

/-- One more request of a run can be granted exactly if all of them may stand together. -/
theorem grant_tally_iff {r : Request} (hr : r.IsProper) (s : Settings) :
    AtMostOnce rs ∧ (tally rs).grant r = .ok s ↔
      AtMostOnce (rs ++ [r]) ∧ s = tally (rs ++ [r]) := by
  cases r with
  | flag f =>
    cases f with
    | help => exact absurd rfl hr
    | verbose =>
      rw [atMostOnce_append_verbose, tally_append_verbose, Settings.grant, Except.ok.injEq, eq_comm]
    | generate =>
      rw [atMostOnce_append_generate, tally_append_generate, Settings.grant, and_assoc]
      refine and_congr_right fun _ => ?_
      by_cases hcount : countOf .generate rs = 0
      · simp [tally, hcount, eq_comm]
      · simp [tally, hcount, Nat.pos_of_ne_zero hcount]
  | value o v =>
    rw [atMostOnce_append_value, Settings.grant, Settings.get_tally, and_assoc]
    refine and_congr_right fun _ => ?_
    by_cases hvalues : valuesFor o rs = []
    · rw [tally_append_value rs hvalues, hvalues, if_neg (by simp), if_neg hr]
      simp [eq_comm]
    · rw [if_pos (by simpa using hvalues)]
      simp [hvalues]

end Counting

/-- Requests of a run can be granted one after the other exactly if they may stand together, and they
come to what counting them tells. -/
theorem grants_eq_ok_iff {rs : List Request} (hrs : ∀ r ∈ rs, r.IsProper) (s : Settings) :
    rs.foldlM Settings.grant .initial = .ok s ↔ AtMostOnce rs ∧ s = tally rs := by
  -- by the last request, since whether it is granted depends on all that came before
  induction rs using List.reverseRecOn generalizing s with
  | nil =>
    have honce : AtMostOnce [] := ⟨by simp [countOf], fun o => by simp [valuesFor]⟩
    constructor
    · intro h
      cases h
      exact ⟨honce, rfl⟩
    · rintro ⟨-, rfl⟩
      rfl
  | append_singleton rs r ih =>
    have hprefix : ∀ r' ∈ rs, r'.IsProper := fun r' h => hrs r' (List.mem_append_left _ h)
    have hlast : r.IsProper := hrs r (List.mem_append_right _ (List.mem_singleton_self r))
    rw [← grant_tally_iff rs hlast, List.foldlM_append, bind_eq_ok]
    simp only [ih hprefix, List.foldlM_cons, List.foldlM_nil, bind_pure]
    constructor
    · rintro ⟨_, ⟨honce, rfl⟩, hgrant⟩
      exact ⟨honce, hgrant⟩
    · rintro ⟨honce, hgrant⟩
      exact ⟨_, ⟨honce, rfl⟩, hgrant⟩

/-! ## The order of requests -/

section Order

variable {rs rs' : List Request}

theorem countOf_of_perm (h : rs.Perm rs') (f : Flag) : countOf f rs = countOf f rs' := h.count_eq _

theorem valuesFor_perm (h : rs.Perm rs') (o : ValueOption) : (valuesFor o rs).Perm (valuesFor o rs') :=
  h.filterMap _

theorem atMostOnce_of_perm (h : rs.Perm rs') : AtMostOnce rs ↔ AtMostOnce rs' := by
  simp only [AtMostOnce, countOf_of_perm h, (valuesFor_perm h _).length_eq]

/-- Requests that may stand together come to the same in any order. -/
theorem tally_of_perm (h : rs.Perm rs') (honce : AtMostOnce rs) : tally rs = tally rs' := by
  have hvalues (o : ValueOption) : valuesFor o rs = valuesFor o rs' := by
    have hperm := valuesFor_perm h o
    match hrs : valuesFor o rs, honce.2 o with
    | [], _ =>
      rw [hrs] at hperm
      exact hperm.nil_eq
    | [v], _ =>
      rw [hrs] at hperm
      exact hperm.singleton_eq
  simp only [tally, countOf_of_perm h, hvalues]

end Order

/-! ## The environment -/

namespace Settings

variable {env : Environment} {s t : Settings} {o : ValueOption}

/-- Sets an option from the environment, if it is not set. -/
def fill (env : Environment) (s : Settings) (o : ValueOption) : Except Stop Settings :=
  match s.get o, env.lookup o.envVariable with
  | none, some v => s.grant (.value o v)
  | _, _ => .ok s

/-- Settings with the environment's value for one option, if that is not set. -/
def filled (env : Environment) (s : Settings) (o : ValueOption) : Settings :=
  match s.get o, env.lookup o.envVariable with
  | none, some v => s.set o v
  | _, _ => s

theorem generate_filled : (s.filled env o).generate = s.generate := by
  unfold filled
  split
  · exact generate_set ..
  · rfl

theorem verbosity_filled : (s.filled env o).verbosity = s.verbosity := by
  unfold filled
  split
  · exact verbosity_set ..
  · rfl

theorem get_filled (o' : ValueOption) :
    (s.filled env o).get o' =
      if o' = o then (s.get o).or (env.lookup o.envVariable) else s.get o' := by
  unfold filled
  by_cases h : o' = o
  · subst h
    cases hget : s.get o' <;> cases hlookup : env.lookup o'.envVariable <;> simp [hget, get_set]
  · cases s.get o <;> cases env.lookup o.envVariable <;> simp [h, get_set]

/-- The environment may set an option if it is set already, or the value is not empty. -/
theorem fill_eq_ok_iff :
    s.fill env o = .ok t ↔
      (s.get o = none → env.lookup o.envVariable ≠ some []) ∧ t = s.filled env o := by
  unfold fill filled
  cases hget : s.get o with
  | some v => simp [eq_comm]
  | none =>
    cases hlookup : env.lookup o.envVariable with
    | none => simp [eq_comm]
    | some v => by_cases hv : v = [] <;> simp [grant, hget, hv, eq_comm]

theorem fills_eq_ok_iff (os : List ValueOption) :
    os.foldlM (fill env) s = .ok t ↔
      (∀ o ∈ os, s.get o = none → env.lookup o.envVariable ≠ some []) ∧
        t = os.foldl (filled env) s := by
  induction os generalizing s with
  | nil =>
    constructor
    · intro h
      cases h
      exact ⟨nofun, rfl⟩
    · rintro ⟨-, rfl⟩
      rfl
  | cons o os ih =>
    rw [List.foldlM_cons, bind_eq_ok]
    simp only [fill_eq_ok_iff, ih]
    constructor
    · rintro ⟨_, ⟨ho, rfl⟩, hos, ht⟩
      refine ⟨?_, ht⟩
      rw [List.forall_mem_cons]
      refine ⟨ho, fun o' hmem hget => ?_⟩
      by_cases h : o' = o
      · subst h
        exact ho hget
      · exact hos o' hmem (by rw [get_filled, if_neg h, hget])
    · rintro ⟨hall, ht⟩
      rw [List.forall_mem_cons] at hall
      obtain ⟨ho, hos⟩ := hall
      refine ⟨_, ⟨ho, rfl⟩, fun o' hmem hget => ?_, ht⟩
      rw [get_filled] at hget
      split at hget
      · next h =>
        -- an option that is still not set after its turn has no variable
        rw [Option.or_eq_none_iff] at hget
        rw [h, hget.2]
        simp
      · exact hos o' hmem hget

/-- Filling in all options completes the settings. -/
theorem foldl_filled (env : Environment) (s : Settings) :
    ValueOption.all.foldl (filled env) s = s.completed env := by
  refine ext_get ?_ ?_ fun o => ?_
  · simp only [ValueOption.all, List.foldl_cons, List.foldl_nil, generate_filled]
    rfl
  · simp only [ValueOption.all, List.foldl_cons, List.foldl_nil, verbosity_filled]
    rfl
  · rw [get_completed]
    simp only [ValueOption.all, List.foldl_cons, List.foldl_nil, get_filled]
    cases o <;> simp

end Settings

end GoldenHarness.CommandLine

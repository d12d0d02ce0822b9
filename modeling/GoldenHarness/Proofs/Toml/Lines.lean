import GoldenHarness.Proofs.Toml.Names
import GoldenHarness.Proofs.Toml.Quoted

/-!
# Documents of plain lines

The plainest documents have a key without quotes, an equals sign and a string in double quotes on each
line. Such a document is read line by line, and has the entries that its lines say, in their order.
-/

namespace GoldenHarness.Toml

/-- Whether a text is a key that needs no quotes. -/
def IsBareName (name : List Char) : Prop := name ≠ [] ∧ ∀ c ∈ name, isBare c

/-- What some entries say, wherever they are written. -/
def Entries.meaning (entries : Entries) : List (List Char × Value) :=
  entries.map fun entry => (entry.1.name, entry.2.2)

namespace Escaping

variable (e : Escaping)

/-- The document of some lines, each with a key and a text. The last line may lack its end. -/
def document (isEnded : Bool) : List (List Char × List Char) → List Char
  | [] => []
  | (name, text) :: lines =>
    name ++ ' ' :: '=' :: ' ' :: e.quoted text ++
      (if lines = [] ∧ ¬ isEnded then [] else ['\n']) ++ document isEnded lines

theorem document_cons (isEnded : Bool) (name text : List Char)
    (lines : List (List Char × List Char)) :
    e.document isEnded ((name, text) :: lines) =
      name ++ ' ' :: '=' :: ' ' :: e.quoted text ++
        (if lines = [] ∧ ¬ isEnded then [] else ['\n']) ++ e.document isEnded lines := rfl

end Escaping

/-! ## Keys -/

variable {name rest : List Char}

/-- What may stand in a key is none of the characters that may not. -/
theorem ne_of_isBare {c d : Char} (h : isBare c) (hd : isBare d = false) : c ≠ d := by
  rintro rfl
  rw [hd] at h
  cases h

theorem not_isBlank_of_isBare {c : Char} (h : isBare c) : ¬ isBlank c := by
  intro hblank
  rcases of_decide_eq_true hblank with rfl | rfl <;> cases h

theorem key?_bare (h : IsBareName name) (hrest : ∀ c, rest.head? = some c → ¬ isBare c) :
    key? (name ++ rest) = some (⟨name, span (name ++ rest) rest⟩, rest) := by
  obtain ⟨hne, hall⟩ := h
  have hdrop : rest.takeWhile isBare = [] ∧ rest.dropWhile isBare = rest := by
    cases rest with
    | nil => exact ⟨rfl, rfl⟩
    | cons c rest =>
      have hc := hrest c rfl
      exact ⟨List.takeWhile_cons_of_neg hc, List.dropWhile_cons_of_neg hc⟩
  have htake : (name ++ rest).takeWhile isBare = name := by
    rw [List.takeWhile_append_of_pos hall, hdrop.1, List.append_nil]
  have hafter : (name ++ rest).dropWhile isBare = rest := by
    rw [List.dropWhile_append_of_pos hall, hdrop.2]
  obtain ⟨c, name, rfl⟩ := List.exists_cons_of_ne_nil hne
  have hc := hall c (List.mem_cons_self ..)
  unfold key?
  split
  · next heq => exact absurd (List.cons.inj heq).1 (ne_of_isBare hc rfl)
  · next heq => exact absurd (List.cons.inj heq).1 (ne_of_isBare hc rfl)
  · rw [htake, hafter]
    rfl

theorem skipBlank_of_isBare (h : IsBareName name) (rest : List Char) :
    skipBlank (name ++ rest) = name ++ rest := by
  obtain ⟨c, name, rfl⟩ := List.exists_cons_of_ne_nil h.1
  have hblank := not_isBlank_of_isBare (h.2 c (List.mem_cons_self ..))
  rw [skipBlank, List.cons_append, List.dropWhile_cons_of_neg hblank]

theorem skipLines_of_isBare (h : IsBareName name) (rest : List Char) :
    skipLines (name ++ rest) = name ++ rest := by
  rw [skipLines, skipLinesFrom, skipBlank_of_isBare h]
  obtain ⟨c, name, rfl⟩ := List.exists_cons_of_ne_nil h.1
  have hc := h.2 c (List.mem_cons_self ..)
  have hcomment : skipComment (c :: name ++ rest) = c :: name ++ rest := by
    unfold skipComment
    split
    · next heq => exact absurd (List.cons.inj heq).1 (ne_of_isBare hc rfl)
    · rfl
  have hend : lineEnd? (c :: name ++ rest) = none := by
    unfold lineEnd?
    split
    · next heq => exact absurd (List.cons.inj heq).1 (ne_of_isBare hc rfl)
    · next heq => exact absurd (List.cons.inj heq).1 (ne_of_isBare hc rfl)
    · rfl
  rw [hcomment, hend]

theorem keys?_bare (h : IsBareName name) (rest : List Char) :
    ∃ place, keys? (name ++ ' ' :: '=' :: rest) = some (([], ⟨name, place⟩), '=' :: rest) := by
  have hspace : ∀ c, (' ' :: '=' :: rest).head? = some c → ¬ isBare c := by
    rintro c hc
    cases hc
    decide
  have hkey := key?_bare h hspace
  refine ⟨span (name ++ ' ' :: '=' :: rest) (' ' :: '=' :: rest), ?_⟩
  rw [keys?, keysFrom, skipBlank_of_isBare h, hkey]
  rfl

/-! ## Lines -/

namespace Escaping

variable (e : Escaping)

/-- The pair on a line is read, whatever follows but another quote. -/
theorem pair?_line (h : IsBareName name) (text : List Char) (hrest : rest.head? ≠ some '"') :
    ∃ place place', pair? value? (name ++ ' ' :: '=' :: ' ' :: e.quoted text ++ rest) =
      some (([], ⟨name, place⟩, place', .string text), rest) := by
  have hline : name ++ ' ' :: '=' :: ' ' :: e.quoted text ++ rest =
      name ++ ' ' :: '=' :: ' ' :: (e.quoted text ++ rest) := by
    rw [List.append_assoc]
    rfl
  obtain ⟨place, hkeys⟩ := keys?_bare h (' ' :: (e.quoted text ++ rest))
  have hstring := e.string?_quoted text hrest
  have hvalue : value? (e.quoted text ++ rest) = some (.string text, rest) := by
    rw [quoted, List.append_assoc, List.cons_append] at hstring ⊢
    rw [value?, valueAt, if_pos (Or.inl rfl), hstring]
    · rfl
    all_goals simp
  refine ⟨place, span (e.quoted text ++ rest) rest, ?_⟩
  rw [hline, pair?, hkeys]
  show (value? (e.quoted text ++ rest)).map _ = _
  rw [hvalue]
  rfl

theorem statement?_line (h : IsBareName name) (text : List Char) (hrest : rest.head? ≠ some '"') :
    ∃ place place', statement? (name ++ ' ' :: '=' :: ' ' :: e.quoted text ++ rest) =
      some (.pair ([], ⟨name, place⟩, place', .string text), rest) := by
  obtain ⟨place, place', hpair⟩ := e.pair?_line h text hrest
  refine ⟨place, place', ?_⟩
  obtain ⟨c, name, rfl⟩ := List.exists_cons_of_ne_nil h.1
  have hbracket : c ≠ '[' := ne_of_isBare (h.2 c (List.mem_cons_self ..)) rfl
  unfold statement?
  split
  · next heq => exact absurd (List.cons.inj heq).1 hbracket
  · next heq => exact absurd (List.cons.inj heq).1 hbracket
  · rw [hpair]
    rfl

variable {lines : List (List Char × List Char)}

/-- Each line is read as a pair. -/
theorem statementsFrom_document (isEnded : Bool) (h : ∀ line ∈ lines, IsBareName line.1)
    (held : List Statement) {fuel : Nat} (hfuel : lines.length < fuel) :
    ∃ entries : Entries, entries.meaning = lines.map (fun line => (line.1, .string line.2)) ∧
      statementsFrom held fuel (e.document isEnded lines) =
        some (held.reverse ++ entries.map fun entry => .pair ([], entry)) := by
  -- on the lines: each takes one of the steps that the reader may make
  induction lines generalizing held fuel with
  | nil =>
    obtain ⟨fuel, rfl⟩ := Nat.exists_eq_add_one.mpr hfuel
    refine ⟨[], rfl, ?_⟩
    rw [List.map_nil, List.append_nil]
    rfl
  | cons line lines ih =>
    obtain ⟨name, text⟩ := line
    obtain ⟨fuel, rfl⟩ := Nat.exists_eq_add_one.mpr (Nat.zero_lt_of_lt hfuel)
    have hname : IsBareName name := h _ (List.mem_cons_self ..)
    let ending : List Char := if lines = [] ∧ ¬ isEnded then [] else ['\n']
    have hending : (ending ++ e.document isEnded lines).head? ≠ some '"' ∧
        endOfLine? (ending ++ e.document isEnded lines) = some (e.document isEnded lines) := by
      by_cases hlast : lines = [] ∧ ¬ isEnded
      · have hnil : ending = [] := if_pos hlast
        rw [hnil, hlast.1]
        exact ⟨nofun, rfl⟩
      · have hfeed : ending = ['\n'] := if_neg hlast
        rw [hfeed]
        exact ⟨by simp, rfl⟩
    obtain ⟨place, place', hstatement⟩ := e.statement?_line hname text hending.1
    obtain ⟨entries, hmeaning, hrest⟩ := ih (fun line hline => h line (List.mem_cons_of_mem _ hline))
      (.pair ([], ⟨name, place⟩, place', .string text) :: held) (Nat.lt_of_succ_lt_succ hfuel)
    refine ⟨(⟨name, place⟩, place', .string text) :: entries, ?_, ?_⟩
    · rw [Entries.meaning, List.map_cons, List.map_cons, ← hmeaning]
      rfl
    · have hdocument : e.document isEnded ((name, text) :: lines) =
          name ++ (' ' :: '=' :: ' ' :: e.quoted text ++ (ending ++ e.document isEnded lines)) := by
        rw [document_cons, List.append_assoc, List.append_assoc]
      rw [List.append_assoc] at hstatement
      rw [hdocument, statementsFrom, skipLines_of_isBare hname, skipBlank_of_isBare hname, hstatement]
      rw [if_neg (by simp [hname.1]), Option.bind_eq_bind, Option.bind_some]
      dsimp only
      rw [hending.2, Option.bind_eq_bind, Option.bind_some, hrest, List.reverse_cons, List.append_assoc]
      rfl

theorem length_le_document (isEnded : Bool) (lines : List (List Char × List Char)) :
    lines.length ≤ (e.document isEnded lines).length := by
  induction lines with
  | nil => exact Nat.zero_le _
  | cons line lines ih =>
    rw [document_cons, List.length_append, List.length_append, List.length_append, List.length_cons,
      List.length_cons]
    omega

theorem statements?_document (isEnded : Bool) (h : ∀ line ∈ lines, IsBareName line.1) :
    ∃ entries : Entries, entries.meaning = lines.map (fun line => (line.1, .string line.2)) ∧
      statements? (e.document isEnded lines) =
        some (entries.map fun entry => .pair ([], entry)) := by
  have hmark : (e.document isEnded lines).head? ≠ some '\uFEFF' := by
    cases lines with
    | nil => exact nofun
    | cons line lines =>
      have hname := h line (List.mem_cons_self ..)
      obtain ⟨c, name, hcons⟩ := List.exists_cons_of_ne_nil hname.1
      have hc : isBare c := hname.2 c (by rw [hcons]; exact List.mem_cons_self ..)
      rw [document_cons, hcons]
      intro hhead
      exact ne_of_isBare hc rfl (Option.some.inj hhead)
  obtain ⟨entries, hmeaning, hstatements⟩ := e.statementsFrom_document isEnded h []
    (Nat.lt_succ_of_le (e.length_le_document isEnded lines))
  exact ⟨entries, hmeaning, by rw [statements?, if_neg hmark, hstatements]; rfl⟩

end Escaping

/-! ## Tables of plain keys -/

theorem sections_pairs (pairs : List Pair) : sections (pairs.map .pair) = (pairs, []) := by
  induction pairs with
  | nil => rfl
  | cons p pairs ih => rw [List.map_cons, sections, ih]

namespace Entries

/-- Plain keys that differ are added one after the other. -/
theorem assignAll?_plain (before : Entries) {entries : Entries} (h : (before ++ entries).names.Nodup) :
    before.assignAll? (entries.map fun entry => ([], entry)) = some (before ++ entries) := by
  induction entries generalizing before with
  | nil => rw [List.append_nil]; rfl
  | cons entry entries ih =>
    have hfree : before.lookup? entry.1.name = none := by
      rw [lookup?_eq_none_iff]
      intro hmem
      rw [names, List.map_append, List.map_cons] at h
      exact (List.nodup_append.mp h).2.2 _ hmem _ (List.mem_cons_self ..) rfl
    have hassign : before.assign? [] entry.1 entry.2.1 entry.2.2 = some (before ++ [entry]) := by
      rw [assign?, change?, if_neg (by simp), add?, hfree]
    have hall : (before ++ [entry] ++ entries).names.Nodup := by
      rwa [List.append_assoc, List.singleton_append]
    have hrest := ih (before ++ [entry]) hall
    rw [List.append_assoc, List.singleton_append] at hrest
    rw [assignAll?, List.map_cons, List.foldlM_cons]
    show (before.assign? [] entry.1 entry.2.1 entry.2.2).bind _ = _
    rw [hassign]
    exact hrest

end Entries

/-- **A document of plain lines** has the entries that its lines say. -/
theorem Escaping.document?_document (e : Escaping) {lines : List (List Char × List Char)}
    (isEnded : Bool) (hbare : ∀ line ∈ lines, IsBareName line.1)
    (hdistinct : (lines.map Prod.fst).Nodup) :
    ∃ entries : Entries, document? (e.document isEnded lines) = some entries ∧
      entries.meaning = lines.map fun line => (line.1, .string line.2) := by
  obtain ⟨entries, hmeaning, hstatements⟩ := e.statements?_document isEnded hbare
  have hnames : entries.names = lines.map Prod.fst := by
    have hfirst := congrArg (List.map Prod.fst) hmeaning
    rwa [Entries.meaning, List.map_map, List.map_map] at hfirst
  have hassigned : Entries.assignAll? [] (entries.map fun entry => ([], entry)) = some entries :=
    Entries.assignAll?_plain [] (by rw [List.nil_append, hnames]; exact hdistinct)
  have hsections : sections (entries.map fun entry => .pair ([], entry)) =
      (entries.map fun entry => ([], entry), []) := by
    rw [← sections_pairs, List.map_map]
    rfl
  refine ⟨entries, ?_, hmeaning⟩
  rw [document?, hstatements, Option.bind_eq_bind, Option.bind_some, hsections]
  show (Entries.assignAll? [] (entries.map fun entry => ([], entry))).bind _ = _
  rw [hassigned]
  rfl


end GoldenHarness.Toml

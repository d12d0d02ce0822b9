import GoldenHarness.FileSystem.Lemmas
import Mathlib.Data.List.TakeWhile
import Mathlib.Tactic.ByContra

/-!
# Paths after an insertion

A path leads through directories only, so a file that is put where no directory was cannot get in its
way: the path leads where it led before, and finds the new file if it led there. Hence what is
written under a path is what is read under it afterwards.
-/

namespace GoldenHarness

namespace Path

@[simp] theorem partsFrom_nil (held : Bytes) : partsFrom held [] = [held.reverse] := rfl

theorem partsFrom_cons (held : Bytes) (b : UInt8) (rest : Bytes) :
    partsFrom held (b :: rest) =
      if b = slash then held.reverse :: partsFrom [] rest else partsFrom (b :: held) rest := rfl

theorem partsFrom_ne_nil (held : Bytes) (p : Path) : partsFrom held p ≠ [] := by
  induction p generalizing held with
  | nil => exact List.cons_ne_nil _ _
  | cons b rest ih =>
    rw [partsFrom_cons]
    split
    · exact List.cons_ne_nil _ _
    · exact ih _

/-- The last part of a path, where the part being read began with `held`. -/
theorem getLast?_partsFrom (held : Bytes) (p : Path) (h : (partsFrom held p).getLast? = some []) :
    p.getLast? = some slash ∨ p = [] ∧ held = [] := by
  induction p generalizing held with
  | nil =>
    right
    simpa using h
  | cons b rest ih =>
    left
    rw [partsFrom_cons] at h
    split at h
    · next hb =>
      rw [List.getLast?_cons_of_ne_nil (partsFrom_ne_nil [] rest)] at h
      rcases ih [] h with hrest | ⟨rfl, -⟩
      · rw [List.getLast?_cons, hrest, Option.getD_some]
      · rw [hb, List.getLast?_singleton]
    · next hb =>
      rcases ih _ h with hrest | ⟨-, hheld⟩
      · rw [List.getLast?_cons, hrest, Option.getD_some]
      · simp at hheld

/-- Only a path that ends with a slash has an empty last part, apart from the empty path. -/
theorem getLast?_of_parts {p : Path} (hp : p ≠ []) (h : (parts p).getLast? = some []) :
    p.getLast? = some slash := by
  rcases getLast?_partsFrom [] p h with h | ⟨h, -⟩
  · exact h
  · exact absurd h hp

theorem isBlank_of_slashes {p : Path} (h : ∀ b ∈ p, b = slash) : ∀ part ∈ parts p, isBlank part := by
  induction p with
  | nil => simp [parts, isBlank]
  | cons b rest ih =>
    have hb : b = slash := h b (List.mem_cons_self ..)
    have hrest := ih fun b' hb' => h b' (List.mem_cons_of_mem _ hb')
    intro part hpart
    rw [parts, partsFrom_cons, if_pos hb] at hpart
    rcases List.mem_cons.mp hpart with rfl | hpart
    · rfl
    · exact hrest part hpart

theorem partsFrom_of_not_mem {p : Bytes} (h : slash ∉ p) (held : Bytes) :
    partsFrom held p = [held.reverse ++ p] := by
  induction p generalizing held with
  | nil => simp
  | cons b rest ih =>
    obtain ⟨hb, hrest⟩ : slash ≠ b ∧ slash ∉ rest := by simpa using h
    rw [partsFrom_cons, if_neg (Ne.symm hb), ih hrest]
    simp

/-- The last part of a path ends with what the path ends with, up to a slash. -/
theorem suffix_partsFrom {tail : Bytes} (htail : slash ∉ tail) (held q : Bytes) :
    ∃ last, (partsFrom held (q ++ tail)).getLast? = some last ∧ tail <:+ last := by
  induction q generalizing held with
  | nil =>
    refine ⟨held.reverse ++ tail, ?_, List.suffix_append _ _⟩
    rw [List.nil_append, partsFrom_of_not_mem htail, List.getLast?_singleton]
  | cons b q ih =>
    rw [List.cons_append, partsFrom_cons]
    split
    · obtain ⟨last, hlast, hsuffix⟩ := ih []
      refine ⟨last, ?_, hsuffix⟩
      rw [List.getLast?_cons_of_ne_nil (partsFrom_ne_nil _ _), hlast]
    · exact ih _

theorem suffix_of_parts {p tail : Path} (h : tail <:+ p) (htail : slash ∉ tail) :
    ∃ last, (parts p).getLast? = some last ∧ tail <:+ last := by
  obtain ⟨q, rfl⟩ := h
  exact suffix_partsFrom htail [] q

end Path

namespace FileSystem

variable {fs : FileSystem}

/-- The working directory and what is above it is a directory. -/
theorem lookup_above {loc : Location} (h : loc <+: fs.workingDirectory) :
    fs.lookup loc = some .directory := by
  rw [lookup, if_pos (List.isPrefixOf_iff_prefix.mpr h)]

/-- What is at a location after an insertion where no directory was. -/
theorem lookup_insert {loc : Location} (h : fs.lookup loc ≠ some .directory) (node : Node)
    (other : Location) :
    (fs.insert loc node).lookup other = if other = loc then some node else fs.lookup other := by
  split
  · next hother =>
    rw [hother]
    exact fs.lookup_insert_self node fun hp => h (lookup_above hp)
  · next hother => exact fs.lookup_insert_of_ne node hother

/-- What is at a location after a removal of something that is no directory. -/
theorem lookup_erase {loc : Location} (h : fs.lookup loc ≠ some .directory) (other : Location) :
    (fs.erase loc).lookup other = if other = loc then none else fs.lookup other := by
  split
  · next hother =>
    rw [hother]
    exact fs.lookup_erase_self fun hp => h (lookup_above hp)
  · next hother => exact fs.lookup_erase_of_ne hother

@[simp] theorem workingDirectory_insert (loc : Location) (node : Node) :
    (fs.insert loc node).workingDirectory = fs.workingDirectory := by
  unfold insert
  split <;> rfl

/-- A file that is put where no directory is leaves every directory in its place. -/
theorem lookup_insert_directory {loc here : Location} {node : Node}
    (hloc : fs.lookup loc ≠ some .directory) (h : fs.lookup here = some .directory) :
    (fs.insert loc node).lookup here = some .directory := by
  have hne : here ≠ loc := by
    rintro rfl
    exact hloc h
  rw [lookup_insert hloc, if_neg hne, h]

/-! ## Walking -/

theorem walk_nil_eq (here : Location) :
    fs.walk here [] =
      match fs.lookup here with
      | some node => .ok (.found here node)
      | none => .error .notFound := rfl

theorem walk_cons_eq (here : Location) (part : Bytes) (rest : List Bytes) :
    fs.walk here (part :: rest) =
      match fs.lookup here with
      | none => .error .notFound
      | some (.file ..) => .error .notADirectory
      | some .directory =>
        if Path.isBlank part then fs.walk here rest
        else if part = Path.dotDot then fs.walk here.dropLast rest
        else if maxName < part.length then .error .nameTooLong
        else
          match fs.lookup (here ++ [part]) with
          | some _ => fs.walk (here ++ [part]) rest
          | none => if rest.all (· = []) then .ok (.free (here ++ [part])) else .error .notFound := rfl

theorem walk_of_none {here : Location} (hhere : fs.lookup here = none) (parts : List Bytes) :
    fs.walk here parts = .error .notFound := by
  cases parts with
  | nil => rw [walk_nil_eq, hhere]
  | cons part rest => rw [walk_cons_eq, hhere]

theorem walk_of_file {here : Location} {content : Bytes} {x : Bool}
    (hhere : fs.lookup here = some (.file content x)) (part : Bytes) (rest : List Bytes) :
    fs.walk here (part :: rest) = .error .notADirectory := by
  rw [walk_cons_eq, hhere]

theorem walk_nil {here : Location} {node : Node} (hhere : fs.lookup here = some node) :
    fs.walk here [] = .ok (.found here node) := by
  rw [walk_nil_eq, hhere]

/-- One step of a walk, from a directory. -/
theorem walk_cons {here : Location} {part : Bytes} {rest : List Bytes}
    (hhere : fs.lookup here = some .directory) :
    fs.walk here (part :: rest) =
      if Path.isBlank part then fs.walk here rest
      else if part = Path.dotDot then fs.walk here.dropLast rest
      else if maxName < part.length then .error .nameTooLong
      else (fs.lookup (here ++ [part])).elim
        (if rest.all (· = []) then .ok (.free (here ++ [part])) else .error .notFound)
        fun _ => fs.walk (here ++ [part]) rest := by
  rw [walk_cons_eq, hhere]
  dsimp only
  cases fs.lookup (here ++ [part]) <;> rfl

theorem walk_blank {here : Location} {part : Bytes} {rest : List Bytes}
    (hhere : fs.lookup here = some .directory) (hblank : Path.isBlank part) :
    fs.walk here (part :: rest) = fs.walk here rest := by
  rw [walk_cons hhere, if_pos hblank]

theorem walk_parent {here : Location} {rest : List Bytes}
    (hhere : fs.lookup here = some .directory) :
    fs.walk here (Path.dotDot :: rest) = fs.walk here.dropLast rest := by
  rw [walk_cons hhere, if_neg (by decide), if_pos rfl]

theorem walk_name {here : Location} {part : Bytes} {rest : List Bytes} {node : Node}
    (hhere : fs.lookup here = some .directory) (hblank : ¬ Path.isBlank part)
    (hparent : part ≠ Path.dotDot) (hshort : ¬ maxName < part.length)
    (hthere : fs.lookup (here ++ [part]) = some node) :
    fs.walk here (part :: rest) = fs.walk (here ++ [part]) rest := by
  rw [walk_cons hhere, if_neg hblank, if_neg hparent, if_neg hshort, hthere, Option.elim_some]

/-- A name that nothing has is free if nothing but slashes follows. -/
theorem walk_missing {here : Location} {part : Bytes} {rest : List Bytes}
    (hhere : fs.lookup here = some .directory) (hblank : ¬ Path.isBlank part)
    (hparent : part ≠ Path.dotDot) (hshort : ¬ maxName < part.length)
    (hthere : fs.lookup (here ++ [part]) = none) :
    fs.walk here (part :: rest) =
      if rest.all (· = []) then .ok (.free (here ++ [part])) else .error .notFound := by
  rw [walk_cons hhere, if_neg hblank, if_neg hparent, if_neg hshort, hthere, Option.elim_none]

theorem walk_of_blank {here : Location} {parts : List Bytes}
    (hhere : fs.lookup here = some .directory) (hblank : ∀ part ∈ parts, Path.isBlank part) :
    fs.walk here parts = .ok (.found here .directory) := by
  induction parts with
  | nil => exact walk_nil hhere
  | cons part rest ih =>
    rw [walk_blank hhere (hblank part (List.mem_cons_self ..))]
    exact ih fun part' hpart => hblank part' (List.mem_cons_of_mem _ hpart)

/-- The ways that walks take to a place. -/
inductive Leads (fs : FileSystem) : Location → List Bytes → Place → Prop where
  | found {here : Location} {node : Node} (hhere : fs.lookup here = some node) :
    Leads fs here [] (.found here node)
  | blank {here : Location} {part : Bytes} {rest : List Bytes} {place : Place}
    (hhere : fs.lookup here = some .directory) (hblank : Path.isBlank part)
    (hrest : Leads fs here rest place) : Leads fs here (part :: rest) place
  | parent {here : Location} {rest : List Bytes} {place : Place}
    (hhere : fs.lookup here = some .directory) (hrest : Leads fs here.dropLast rest place) :
    Leads fs here (Path.dotDot :: rest) place
  | name {here : Location} {part : Bytes} {rest : List Bytes} {place : Place} {node : Node}
    (hhere : fs.lookup here = some .directory) (hblank : ¬ Path.isBlank part)
    (hparent : part ≠ Path.dotDot) (hshort : ¬ maxName < part.length)
    (hthere : fs.lookup (here ++ [part]) = some node) (hrest : Leads fs (here ++ [part]) rest place) :
    Leads fs here (part :: rest) place
  /-- A name that nothing has, which only slashes follow. -/
  | free {here : Location} {part : Bytes} {rest : List Bytes}
    (hhere : fs.lookup here = some .directory) (hblank : ¬ Path.isBlank part)
    (hparent : part ≠ Path.dotDot) (hshort : ¬ maxName < part.length)
    (hthere : fs.lookup (here ++ [part]) = none) (hempty : rest.all (· = [])) :
    Leads fs here (part :: rest) (.free (here ++ [part]))

theorem leads_of_walk {here : Location} {parts : List Bytes} {place : Place}
    (h : fs.walk here parts = .ok place) : Leads fs here parts place := by
  induction parts generalizing here with
  | nil =>
    cases hhere : fs.lookup here with
    | none =>
      rw [walk_of_none hhere] at h
      cases h
    | some node =>
      rw [walk_nil hhere] at h
      cases h
      exact .found hhere
  | cons part rest ih =>
    cases hhere : fs.lookup here with
    | none =>
      rw [walk_of_none hhere] at h
      cases h
    | some node =>
      cases node with
      | file content x =>
        rw [walk_of_file hhere] at h
        cases h
      | directory =>
        rw [walk_cons hhere] at h
        by_cases hblank : Path.isBlank part
        · rw [if_pos hblank] at h
          exact .blank hhere hblank (ih h)
        rw [if_neg hblank] at h
        by_cases hparent : part = Path.dotDot
        · rw [if_pos hparent] at h
          subst hparent
          exact .parent hhere (ih h)
        rw [if_neg hparent] at h
        by_cases hlong : maxName < part.length
        · rw [if_pos hlong] at h
          cases h
        rw [if_neg hlong] at h
        cases hthere : fs.lookup (here ++ [part]) with
        | some node =>
          rw [hthere] at h
          exact .name hhere hblank hparent hlong hthere (ih h)
        | none =>
          rw [hthere, Option.elim_none] at h
          by_cases hempty : rest.all (· = [])
          · rw [if_pos hempty] at h
            cases h
            exact .free hhere hblank hparent hlong hthere hempty
          · rw [if_neg hempty] at h
            cases h

theorem walk_of_leads {here : Location} {parts : List Bytes} {place : Place}
    (h : Leads fs here parts place) : fs.walk here parts = .ok place := by
  induction h with
  | found hhere => exact walk_nil hhere
  | blank hhere hblank _ ih => exact (walk_blank hhere hblank).trans ih
  | parent hhere _ ih => exact (walk_parent hhere).trans ih
  | name hhere hblank hparent hshort hthere _ ih =>
    exact (walk_name hhere hblank hparent hshort hthere).trans ih
  | free hhere hblank hparent hshort hthere hempty =>
    rw [walk_missing hhere hblank hparent hshort hthere, if_pos hempty]

theorem walk_eq_ok_iff {here : Location} {parts : List Bytes} {place : Place} :
    fs.walk here parts = .ok place ↔ Leads fs here parts place :=
  ⟨leads_of_walk, walk_of_leads⟩

/-- What a place says of the files is so. -/
def HoldsAt (fs : FileSystem) : Place → Prop
  | .found loc node => fs.lookup loc = some node
  | .free loc => fs.lookup loc = none

/-- A walk finds what is there, and calls free what nothing has. -/
theorem holdsAt_of_walk {here : Location} {parts : List Bytes} {place : Place}
    (h : fs.walk here parts = .ok place) : fs.HoldsAt place := by
  rw [walk_eq_ok_iff] at h
  induction h with
  | found hhere => exact hhere
  | blank _ _ _ ih | parent _ _ ih | name _ _ _ _ _ _ ih => exact ih
  | free _ _ _ _ hthere _ => exact hthere

theorem lookup_of_walk_found {here loc : Location} {parts : List Bytes} {node : Node}
    (h : fs.walk here parts = .ok (.found loc node)) : fs.lookup loc = some node :=
  holdsAt_of_walk h

theorem lookup_of_walk_free {here loc : Location} {parts : List Bytes}
    (h : fs.walk here parts = .ok (.free loc)) : fs.lookup loc = none :=
  holdsAt_of_walk h

/-- A file that is put where no directory is changes no way to anything that was there. -/
theorem walk_insert_of_found {here loc other : Location} {parts : List Bytes} {node : Node}
    (new : Node) (hloc : fs.lookup loc ≠ some .directory)
    (h : fs.walk here parts = .ok (.found other node)) :
    (fs.insert loc new).walk here parts = .ok (.found other (if other = loc then new else node)) := by
  have hthere {other : Location} {node : Node} (h : fs.lookup other = some node) :
      (fs.insert loc new).lookup other = some (if other = loc then new else node) := by
    rw [lookup_insert hloc, h]
    split <;> rfl
  rw [walk_eq_ok_iff] at h ⊢
  generalize hplace : Place.found other node = place at h
  induction h with
  | found hhere =>
    cases hplace
    exact .found (hthere hhere)
  | blank hhere hblank _ ih =>
    exact .blank (lookup_insert_directory hloc hhere) hblank (ih hplace)
  | parent hhere _ ih => exact .parent (lookup_insert_directory hloc hhere) (ih hplace)
  | name hhere hblank hparent hshort hnext _ ih =>
    exact .name (lookup_insert_directory hloc hhere) hblank hparent hshort (hthere hnext) (ih hplace)
  | free => cases hplace

/-- A walk to a free name begins in a directory. -/
theorem lookup_of_walk_eq_free {here loc : Location} {parts : List Bytes}
    (h : fs.walk here parts = .ok (.free loc)) : fs.lookup here = some .directory := by
  cases leads_of_walk h with
  | blank hhere | parent hhere | name hhere | free hhere => exact hhere

/-- What follows a step to a free name is nothing, or ends as the walk does. -/
theorem getLast?_rest {part : Bytes} {rest : List Bytes}
    (h : (part :: rest).getLast? ≠ some []) : rest.getLast? ≠ some [] := fun hrest =>
  h (by rw [List.getLast?_cons, hrest, Option.getD_some])

/-- Only slashes could follow a free name, so nothing does if the walk does not end with one. -/
theorem eq_nil_of_all_empty {part : Bytes} {rest : List Bytes}
    (h : (part :: rest).getLast? ≠ some []) (hempty : rest.all (· = [])) : rest = [] := by
  by_contra hne
  have hlast := List.all_eq_true.mp hempty _ (List.getLast_mem hne)
  refine getLast?_rest h ?_
  rw [List.getLast?_eq_some_getLast hne, of_decide_eq_true hlast]

/-- A walk to a free name goes on as before while all directories are there, to the same name, whatever
is there by then. -/
theorem walk_of_free {fs' : FileSystem} {here loc : Location} {parts : List Bytes}
    (hparts : parts.getLast? ≠ some [])
    (hkept : ∀ other, fs.lookup other = some .directory → fs'.lookup other = some .directory)
    (h : fs.walk here parts = .ok (.free loc)) :
    fs'.walk here parts = .ok ((fs'.lookup loc).elim (.free loc) (.found loc)) := by
  rw [walk_eq_ok_iff] at h ⊢
  generalize hplace : Place.free loc = place at h
  induction h with
  | found => cases hplace
  | blank hhere hblank _ ih => exact .blank (hkept _ hhere) hblank (ih (getLast?_rest hparts) hplace)
  | parent hhere _ ih => exact .parent (hkept _ hhere) (ih (getLast?_rest hparts) hplace)
  | name hhere hblank hparent hshort _ hrest ih =>
    have hnext := lookup_of_walk_eq_free (walk_of_leads (hplace ▸ hrest))
    exact .name (hkept _ hhere) hblank hparent hshort (hkept _ hnext)
      (ih (getLast?_rest hparts) hplace)
  | free hhere hblank hparent hshort _ hempty =>
    cases hplace
    rw [eq_nil_of_all_empty hparts hempty]
    cases hnext : fs'.lookup _ with
    | none => exact .free (hkept _ hhere) hblank hparent hshort hnext rfl
    | some node => exact .name (hkept _ hhere) hblank hparent hshort hnext (.found hnext)

/-- The name that a walk finds free is the last part of the path, unless that asks for a directory. -/
theorem getLast?_of_walk_free {here loc : Location} {parts : List Bytes}
    (hparts : parts.getLast? ≠ some []) (h : fs.walk here parts = .ok (.free loc)) :
    loc.getLast? = parts.getLast? := by
  have hgoes {here : Location} {part : Bytes} {rest : List Bytes} (h : Leads fs here rest (.free loc))
      (ih : loc.getLast? = rest.getLast?) : loc.getLast? = (part :: rest).getLast? := by
    rw [List.getLast?_cons_of_ne_nil, ih]
    rintro rfl
    cases h
  rw [walk_eq_ok_iff] at h
  generalize hplace : Place.free loc = place at h
  induction h with
  | found => cases hplace
  | blank _ _ hrest ih | parent _ hrest ih | name _ _ _ _ _ hrest ih =>
    exact hgoes (hplace ▸ hrest) (ih (getLast?_rest hparts) hplace)
  | free _ _ _ _ _ hempty =>
    cases hplace
    rw [eq_nil_of_all_empty hparts hempty, List.getLast?_concat, List.getLast?_singleton]

/-! ## Locating -/

/-- A proper path is walked. -/
theorem locate_of_proper {p : Path} (h : p ≠ [] ∧ ¬ p.contains 0 ∧ ¬ maxPath < p.length) :
    fs.locate p =
      fs.walk (if Path.isAbsolute p then [] else fs.workingDirectory) (Path.parts p) := by
  obtain ⟨hempty, hnul, hlong⟩ := h
  unfold locate
  rw [if_neg hempty, if_neg hnul, if_neg hlong]

/-- Any other path is refused, whatever the files are. -/
theorem locate_of_improper {p : Path}
    (h : ¬ (p ≠ [] ∧ ¬ p.contains 0 ∧ ¬ maxPath < p.length)) :
    ∃ e, ∀ fs : FileSystem, fs.locate p = .error e := by
  unfold locate
  by_cases hempty : p = []
  · exact ⟨.notFound, fun _ => if_pos hempty⟩
  by_cases hnul : p.contains 0
  · refine ⟨.nulInPath, fun _ => ?_⟩
    rw [if_neg hempty, if_pos hnul]
  by_cases hlong : maxPath < p.length
  · refine ⟨.nameTooLong, fun _ => ?_⟩
    rw [if_neg hempty, if_neg hnul, if_pos hlong]
  · exact absurd ⟨hempty, hnul, hlong⟩ h

/-- A path leads somewhere if it is a proper path, and walking it leads there. -/
theorem locate_eq_ok_iff {p : Path} {place : Place} :
    fs.locate p = .ok place ↔
      (p ≠ [] ∧ ¬ p.contains 0 ∧ ¬ maxPath < p.length) ∧
        fs.walk (if Path.isAbsolute p then [] else fs.workingDirectory) (Path.parts p) = .ok place := by
  by_cases hproper : p ≠ [] ∧ ¬ p.contains 0 ∧ ¬ maxPath < p.length
  · rw [locate_of_proper hproper, and_iff_right hproper]
  · obtain ⟨e, he⟩ := locate_of_improper hproper
    rw [he]
    exact ⟨nofun, fun h => absurd h.1 hproper⟩

theorem walk_of_locate {p : Path} {place : Place} (h : fs.locate p = .ok place) :
    fs.walk (if Path.isAbsolute p then [] else fs.workingDirectory) (Path.parts p) = .ok place := by
  rw [locate_eq_ok_iff] at h
  exact h.2

theorem lookup_of_locate_found {p : Path} {loc : Location} {node : Node}
    (h : fs.locate p = .ok (.found loc node)) : fs.lookup loc = some node :=
  lookup_of_walk_found (walk_of_locate h)

theorem lookup_of_locate_free {p : Path} {loc : Location} (h : fs.locate p = .ok (.free loc)) :
    fs.lookup loc = none :=
  lookup_of_walk_free (walk_of_locate h)

theorem locate_insert_of_found {p : Path} {loc other : Location} {node : Node} (new : Node)
    (hloc : fs.lookup loc ≠ some .directory) (h : fs.locate p = .ok (.found other node)) :
    (fs.insert loc new).locate p = .ok (.found other (if other = loc then new else node)) := by
  rw [locate_eq_ok_iff] at h ⊢
  obtain ⟨hproper, hwalk⟩ := h
  refine ⟨hproper, ?_⟩
  rw [workingDirectory_insert]
  exact walk_insert_of_found new hloc hwalk

/-- A path to a free name leads there for as long as all directories are there, whatever is put there,
unless the path ends with a slash. -/
theorem locate_of_free {fs' : FileSystem} {p : Path} {loc : Location}
    (hp : p.getLast? ≠ some Path.slash) (hworking : fs'.workingDirectory = fs.workingDirectory)
    (hkept : ∀ other, fs.lookup other = some .directory → fs'.lookup other = some .directory)
    (h : fs.locate p = .ok (.free loc)) :
    fs'.locate p = .ok ((fs'.lookup loc).elim (.free loc) (.found loc)) := by
  rw [locate_eq_ok_iff] at h ⊢
  obtain ⟨hproper, hwalk⟩ := h
  refine ⟨hproper, ?_⟩
  rw [hworking]
  exact walk_of_free (fun hlast => hp (Path.getLast?_of_parts hproper.1 hlast)) hkept hwalk

/-- The free name that a path leads to ends with what the path ends with, up to a slash. -/
theorem suffix_of_locate_free {p tail : Path} {loc : Location} (htail : tail <:+ p)
    (hne : tail ≠ []) (hslash : Path.slash ∉ tail) (h : fs.locate p = .ok (.free loc)) :
    ∃ last, loc.getLast? = some last ∧ tail <:+ last := by
  obtain ⟨last, hlast, hsuffix⟩ := Path.suffix_of_parts htail hslash
  have hparts : (Path.parts p).getLast? ≠ some [] := by
    rintro hempty
    obtain rfl : last = [] := Option.some.inj (hlast.symm.trans hempty)
    exact hne (List.suffix_nil.mp hsuffix)
  exact ⟨last, (getLast?_of_walk_free hparts (walk_of_locate h)).trans hlast, hsuffix⟩

/-- A path to a free name leads to what is put there, unless the path ends with a slash. -/
theorem locate_insert_of_free {p : Path} {loc : Location} (new : Node)
    (hp : p.getLast? ≠ some Path.slash) (h : fs.locate p = .ok (.free loc)) :
    (fs.insert loc new).locate p = .ok (.found loc new) := by
  have hloc : fs.lookup loc ≠ some .directory := by simp [lookup_of_locate_free h]
  rw [locate_of_free hp (workingDirectory_insert loc new) (fun _ => lookup_insert_directory hloc) h,
    lookup_insert hloc, if_pos rfl]
  rfl

/-- A path of slashes leads to the root, which is always there. -/
theorem locate_of_slashes {p : Path} {place : Place} (hp : ∀ b ∈ p, b = Path.slash)
    (h : fs.locate p = .ok place) : place = .found [] .directory := by
  rw [locate_eq_ok_iff] at h
  obtain ⟨⟨hne, -⟩, hwalk⟩ := h
  have habsolute : Path.isAbsolute p := by
    obtain ⟨b, rest, rfl⟩ := List.exists_cons_of_ne_nil hne
    simp [Path.isAbsolute, hp b (List.mem_cons_self ..)]
  have hroot : fs.lookup [] = some .directory := lookup_above List.nil_prefix
  rw [if_pos habsolute, walk_of_blank hroot (Path.isBlank_of_slashes hp)] at hwalk
  cases hwalk
  rfl

theorem slashes_of_dropSlashes {p : Path} (h : dropSlashes p = []) : ∀ b ∈ p, b = Path.slash := by
  intro b hb
  have hdrop : p.reverse.dropWhile (· = Path.slash) = [] := List.reverse_eq_nil_iff.mp h
  have := List.dropWhile_eq_nil_iff.mp hdrop b (List.mem_reverse.mpr hb)
  exact of_decide_eq_true this

/-! ## Reading and writing -/

/-- What is read under a path is the content of the file that the path leads to. -/
theorem read_eq_ok_iff {p : Path} {content : Bytes} :
    fs.read p = .ok content ↔ ∃ loc x, fs.locate p = .ok (.found loc (.file content x)) := by
  unfold read
  split <;> simp_all

/-- A path that is written to leads to a file or to a free name. -/
theorem write_cases {p : Path} {content : Bytes} {fs' : FileSystem}
    (h : fs.write p content = .ok fs') :
    ¬ (p.getLast? = some Path.slash ∧ dropSlashes p ≠ []) ∧
      ((∃ loc old x, fs.locate p = .ok (.found loc (.file old x)) ∧
          fs' = fs.insert loc (.file content x)) ∨
        ∃ loc, fs.locate p = .ok (.free loc) ∧ fs' = fs.insert loc (.file content false)) := by
  unfold write at h
  split at h
  · split at h <;> cases h
  · next hslash =>
    refine ⟨hslash, ?_⟩
    split at h
    · cases h
    · next loc old x hfound =>
      cases h
      exact Or.inl ⟨loc, old, x, hfound, rfl⟩
    · cases h
    · next loc hfree =>
      cases h
      exact Or.inr ⟨loc, hfree, rfl⟩

theorem getLast?_of_write {p : Path} {content : Bytes} {fs' : FileSystem} (h : fs.write p content = .ok fs') :
    p.getLast? ≠ some Path.slash := by
  intro hlast
  obtain ⟨hslash, hplace⟩ := write_cases h
  have hdrop : dropSlashes p = [] := by
    by_contra hne
    exact hslash ⟨hlast, hne⟩
  -- a path of slashes alone leads to the root
  have hroot {place : Place} (hplace : fs.locate p = .ok place) : place = .found [] .directory :=
    locate_of_slashes (slashes_of_dropSlashes hdrop) hplace
  obtain ⟨loc, old, x, hfound, -⟩ | ⟨loc, hfree, -⟩ := hplace
  · cases hroot hfound
  · cases hroot hfree

/-- What is written under a path is read under it afterwards. -/
theorem read_of_write {p : Path} {content : Bytes} {fs' : FileSystem}
    (h : fs.write p content = .ok fs') : fs'.read p = .ok content := by
  have hlast := getLast?_of_write h
  rw [read_eq_ok_iff]
  obtain ⟨-, ⟨loc, old, x, hfound, rfl⟩ | ⟨loc, hfree, rfl⟩⟩ := write_cases h
  · have hloc : fs.lookup loc ≠ some .directory := by
      simp [lookup_of_locate_found hfound]
    have := locate_insert_of_found (.file content x) hloc hfound
    exact ⟨loc, x, by rwa [if_pos rfl] at this⟩
  · exact ⟨loc, false, locate_insert_of_free (.file content false) hlast hfree⟩

/-- The location that a path leads to, be it that of something or of a free name. -/
def target? (fs : FileSystem) (p : Path) : Option Location :=
  match fs.locate p with
  | .ok (.found loc _) | .ok (.free loc) => some loc
  | .error _ => none

theorem target?_of_found {p : Path} {loc : Location} {node : Node}
    (h : fs.locate p = .ok (.found loc node)) : fs.target? p = some loc := by
  unfold target?
  rw [h]

theorem target?_of_free {p : Path} {loc : Location} (h : fs.locate p = .ok (.free loc)) :
    fs.target? p = some loc := by
  unfold target?
  rw [h]

/-- Whether there is a file at a location that may be executed. -/
def isExecutableAt (fs : FileSystem) (loc : Location) : Bool :=
  match fs.lookup loc with
  | some (.file _ x) => x
  | _ => false

theorem isExecutableAt_of_lookup {loc : Location} {content : Bytes} {x : Bool}
    (h : fs.lookup loc = some (.file content x)) : fs.isExecutableAt loc = x := by
  unfold isExecutableAt
  rw [h]

theorem isExecutableAt_of_none {loc : Location} (h : fs.lookup loc = none) :
    fs.isExecutableAt loc = false := by
  unfold isExecutableAt
  rw [h]

theorem isExecutableAt_congr {fs' : FileSystem} {loc : Location}
    (h : fs'.lookup loc = fs.lookup loc) : fs'.isExecutableAt loc = fs.isExecutableAt loc := by
  unfold isExecutableAt
  rw [h]

/-- Writing changes the file that the path leads to, and nothing else. The file may be executed
afterwards if it could before. -/
theorem write_eq_ok {p : Path} {content : Bytes} {fs' : FileSystem}
    (h : fs.write p content = .ok fs') :
    ∃ loc, fs.target? p = some loc ∧ fs.lookup loc ≠ some .directory ∧
      fs' = fs.insert loc (.file content (fs.isExecutableAt loc)) := by
  obtain ⟨-, ⟨loc, old, x, hfound, rfl⟩ | ⟨loc, hfree, rfl⟩⟩ := write_cases h
  · have hthere := lookup_of_locate_found hfound
    refine ⟨loc, ?_, ?_, ?_⟩
    · rw [target?_of_found hfound]
    · simp [hthere]
    · rw [isExecutableAt_of_lookup hthere]
  · have hnone := lookup_of_locate_free hfree
    refine ⟨loc, ?_, ?_, ?_⟩
    · rw [target?_of_free hfree]
    · simp [hnone]
    · rw [isExecutableAt_of_none hnone]

/-- A new file is created empty, under a name that is free. -/
theorem createNew_eq_ok {p : Path} {loc : Location} {files : FileSystem}
    (h : fs.createNew p = .ok (loc, files)) :
    fs.locate p = .ok (.free loc) ∧ files = fs.insert loc (.file [] false) := by
  unfold createNew at h
  split at h
  · cases h
  · cases h
  · next hfree =>
    cases h
    exact ⟨hfree, rfl⟩

end FileSystem

end GoldenHarness

import GoldenHarness.Config.File

/-!
# Loading a configuration file

A configuration file is read, decoded and parsed before its paths are taken from its directory. What is
written in the file does not depend on where the file is.
-/

namespace GoldenHarness.ConfigFile

variable {fs : FileSystem} {path : Path} {bytes : Bytes} {file written : ConfigFile}

/-- What the bytes of a configuration file set, with paths as they are written. -/
def IsWritten (bytes : Bytes) (written : ConfigFile) : Prop :=
  ∃ text, Utf8.decode? bytes = some text ∧ ofText text = .ok written

theorem IsWritten.unique {other : ConfigFile} (h : IsWritten bytes written) (h' : IsWritten bytes other) :
    written = other := by
  obtain ⟨text, hdecode, hwritten⟩ := h
  obtain ⟨text', hdecode', hother⟩ := h'
  obtain rfl : text = text' := Option.some.inj (hdecode.symm.trans hdecode')
  exact Except.ok.inj (hwritten.symm.trans hother)

/-- The directory that the paths of a file are taken from. -/
def base (path : Path) : Path := (Path.parent? path).getD Path.dot

theorem load_eq_ok_iff :
    load fs path = .ok file ↔
      ∃ bytes written, fs.read path = .ok bytes ∧ IsWritten bytes written ∧
        file = written.relativeTo (base path) := by
  constructor
  · intro h
    unfold load at h
    split at h
    · cases h
    next bytes hread =>
    split at h
    · cases h
    next text hdecode =>
    split at h
    · cases h
    next written hwritten =>
    cases h
    exact ⟨bytes, written, hread, ⟨text, hdecode, hwritten⟩, rfl⟩
  · rintro ⟨bytes, written, hread, ⟨text, hdecode, hwritten⟩, rfl⟩
    rw [load, hread]
    dsimp only
    rw [hdecode]
    dsimp only
    rw [hwritten]
    rfl

end GoldenHarness.ConfigFile

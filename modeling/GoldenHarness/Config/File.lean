import GoldenHarness.Config.Basic
import GoldenHarness.Decimal.Shortest
import GoldenHarness.FileSystem.Basic
import GoldenHarness.Toml.Document
import GoldenHarness.Toml.Excerpt

/-!
# Configuration files

A configuration file is a TOML document with five keys, each of which may be left out and otherwise
has a string for its value. Relative paths in it are taken from the directory that the file is in,
except that a tool without a directory stays as it is and is looked up by name.

A file is refused for one fault. What keeps it from being read at all comes first, then a fault in its
syntax, and then the faulty key that comes first in the order of keys, wherever it is in the file.
-/

namespace GoldenHarness

/-- A key of a configuration file. -/
inductive ConfigKey where
  /-- The decoder. -/
  | tool
  /-- The decoder's first argument. -/
  | subcommand
  /-- The capture. -/
  | capture
  /-- The golden file. -/
  | golden
  /-- The directory for the transient file. -/
  | scratchDir
deriving DecidableEq, Repr

namespace ConfigKey

/-- All keys. -/
def all : List ConfigKey := [tool, subcommand, capture, golden, scratchDir]

/-- The key as it is written. -/
def name : ConfigKey → String
  | tool => "tool"
  | subcommand => "subcommand"
  | capture => "capture"
  | golden => "golden"
  | scratchDir => "scratch_dir"

/-- The key that is written in a given way. -/
def ofName? (name : List Char) : Option ConfigKey := all.find? fun k => k.name.toList = name

/-- What the value of a key is expected to be. -/
def expected : ConfigKey → String
  | subcommand => "a string"
  | _ => "path string"

end ConfigKey

/-- What a configuration file sets. -/
structure ConfigFile where
  /-- The decoder. -/
  tool : Option Path
  /-- The decoder's first argument. -/
  subcommand : Option String
  /-- The capture. -/
  capture : Option Path
  /-- The golden file. -/
  golden : Option Path
  /-- The directory for the transient file. -/
  scratchDir : Option Path
deriving DecidableEq, Repr

/-- A fault in the text of a configuration file. -/
inductive ConfigFault where
  /-- The text is no TOML document. -/
  | malformed
  /-- A key is not among those of a configuration file. -/
  | unknownKey (key : Toml.Key)
  /-- The value of a key is something else than a string. -/
  | wrongType (key : ConfigKey) (found : String) (span : Toml.Span)
  /-- The value of a key is a number too large to be told. -/
  | tooLarge
deriving DecidableEq, Repr

/-- Why a configuration cannot be had from a file. -/
inductive ConfigError where
  /-- The file cannot be read. -/
  | unreadable (path : Path) (cause : Failure)
  /-- The text of the file is faulty. -/
  | faulty (text : List Char) (fault : ConfigFault)
deriving DecidableEq, Repr

namespace ConfigError

/-- The text of an error. -/
def message : ConfigError → String
  | unreadable path cause => s!"Failed to read config file '{Path.display path}': {cause.message}"
  | faulty text fault =>
    let what :=
      match fault with
      | .malformed => "TOML parse error\n"
      | .tooLarge => "number overflowed\n"
      | .unknownKey key =>
        let known := ", ".intercalate (ConfigKey.all.map fun k : ConfigKey => s!"`{k.name}`")
        Toml.Excerpt.render text key.span
          s!"unknown field `{String.ofList key.name}`, expected one of {known}"
      | .wrongType key found span =>
        Toml.Excerpt.render text span s!"invalid type: {found}, expected {key.expected}"
    s!"Failed to parse TOML: {what}"

end ConfigError

namespace ConfigFile

/-- A file that sets nothing. -/
def empty : ConfigFile := ⟨none, none, none, none, none⟩

/-- Sets a key to a string. Paths are the bytes of the string. -/
def set (f : ConfigFile) (key : ConfigKey) (text : List Char) : ConfigFile :=
  match key with
  | .tool => { f with tool := some (Utf8.encode text) }
  | .subcommand => { f with subcommand := some (String.ofList text) }
  | .capture => { f with capture := some (Utf8.encode text) }
  | .golden => { f with golden := some (Utf8.encode text) }
  | .scratchDir => { f with scratchDir := some (Utf8.encode text) }

/-- How a whole number is told: with a note on its width, if it needs more than 64 bits. -/
def describeInteger (n : Int) : Option String :=
  let bound (bits : Nat) : Int := Int.pow 2 bits
  if -bound 63 ≤ n ∧ n < bound 64 then some s!"integer `{n}`"
  else if -bound 127 ≤ n ∧ n < bound 127 then some s!"integer `{n}` as i128"
  else if 0 ≤ n ∧ n < bound 128 then some s!"integer `{n}` as u128"
  else none

/-- How a fractional number is told: as the shortest decimal that is read as the same number. -/
def describeFloat (x : Toml.Fractional) : Option String :=
  let sign (negative : Bool) : String := if negative then "-" else ""
  match x with
  | .notANumber => some "floating point `NaN`"
  | .infinity negative => some s!"floating point `{sign negative}inf`"
  | .decimal negative digits exponent =>
    if digits = 0 then some s!"floating point `{sign negative}0.0`"
    else
      (Decimal.Double.ofDecimal? ⟨digits, exponent⟩).map fun x =>
        let shown := if x.mantissa = 0 then "0.0" else x.shortest.positional
        s!"floating point `{sign negative}{shown}`"

/-- How a value that is no string is told: nothing for a number too large to be told. -/
def describe? : Toml.Value → Option String
  | .string _ => some "string"
  | .integer n => describeInteger n
  | .float x => describeFloat x
  | .boolean b => some s!"boolean `{b}`"
  | .array _ | .tables _ => some "sequence"
  | .dateTime _ | .table .. => some "map"

/-- Takes over an entry of a document. -/
def takeEntry (f : ConfigFile) (entry : Toml.Key × Toml.Span × Toml.Value) :
    Except ConfigFault ConfigFile :=
  let (key, span, value) := entry
  match ConfigKey.ofName? key.name with
  | none => .error (.unknownKey key)
  | some k =>
    match value with
    | .string text => .ok (f.set k text)
    | other =>
      match describe? other with
      | some found => .error (.wrongType k found span)
      | none => .error .tooLarge

/-- Whether a text comes before another or is the same, by the code points of its characters. -/
def isOrdered : List Char → List Char → Bool
  | [], _ => true
  | _ :: _, [] => false
  | a :: as, b :: bs => if a = b then isOrdered as bs else a.toNat < b.toNat

/-- The entries of a document in the order of their keys. -/
def inOrder (entries : Toml.Entries) : Toml.Entries :=
  List.mergeSort entries fun a b => isOrdered a.1.name b.1.name

/-- What a text sets, with paths as they are written. -/
def ofText (text : List Char) : Except ConfigFault ConfigFile :=
  match Toml.document? text with
  | none => .error .malformed
  | some entries => (inOrder entries).foldlM takeEntry empty

/-- A path of a configuration file, taken from the directory that the file is in. -/
def rebase (base : Path) (p : Path) : Path := Path.join base p

/-- The decoder, taken from the directory that the file is in unless it is a bare name. -/
def rebaseTool (base : Path) (p : Path) : Path :=
  if 1 < (Path.components p).length then rebase base p else p

/-- What a file sets, with its paths taken from a directory. -/
def relativeTo (f : ConfigFile) (base : Path) : ConfigFile :=
  { f with
    tool := f.tool.map (rebaseTool base)
    capture := f.capture.map (rebase base)
    golden := f.golden.map (rebase base)
    scratchDir := f.scratchDir.map (rebase base) }

/-- Reads a configuration file. -/
def load (fs : FileSystem) (path : Path) : Except ConfigError ConfigFile :=
  match fs.read path with
  | .error cause => .error (.unreadable path cause)
  | .ok bytes =>
    match Utf8.decode? bytes with
    | none => .error (.unreadable path .notUtf8)
    | some text =>
      match ofText text with
      | .error fault => .error (.faulty text fault)
      | .ok file => .ok (file.relativeTo ((Path.parent? path).getD Path.dot))

end ConfigFile

end GoldenHarness

import GoldenHarness.Toml.Lexeme
import GoldenHarness.Toml.Table

/-!
# Statements of a TOML document

Keys, values and the lines of a document. Values nest to a bounded depth, which is what the reader of
values recurses on; the items of an array and of a table between braces are read one after the other,
and each takes at least one character.
-/

namespace GoldenHarness.Toml

/-- How deeply arrays and tables between braces may nest. -/
def maxDepth : Nat := 80

/-- The stretch from one place to another, both told by the characters from there on. -/
def span (start stop : List Char) : Span := ⟨start.length, stop.length⟩

/-! ## Keys -/

/-- Reads one part of a dotted key. -/
def key? : Reader Key := fun cs =>
  match cs with
  | '"' :: rest => (basicFrom [] .plain rest).map fun (name, after) => (⟨name, span cs after⟩, after)
  | '\'' :: rest => (literalFrom [] rest).map fun (name, after) => (⟨name, span cs after⟩, after)
  | _ =>
    let name := cs.takeWhile isBare
    let after := cs.dropWhile isBare
    if name.isEmpty then none else some (⟨name, span cs after⟩, after)

/-- Reads a dotted key: its first part, and then parts after dots, at most `fuel` of them. White space
may stand around the dots and after the key. -/
def keysFrom (held : List Key) : (fuel : Nat) → Reader (List Key × Key)
  | 0, _ => none
  | fuel + 1, cs =>
    match key? (skipBlank cs) with
    | none => none
    | some (key, rest) =>
      match skipBlank rest with
      | '.' :: rest => keysFrom (key :: held) fuel rest
      | rest => some ((held.reverse, key), rest)

/-- Reads a dotted key: the path to its last part, and that part. -/
def keys? : Reader (List Key × Key) := fun cs => keysFrom [] (cs.length + 1) cs

/-! ## Values -/

/-- Drops white space, comments and ends of lines, at most `fuel` lines of them. A carriage return
with no line feed after it is left, and nothing can be read there. -/
def skipLinesFrom : (fuel : Nat) → List Char → List Char
  | 0, cs => cs
  | fuel + 1, cs =>
    let cs := skipComment (skipBlank cs)
    match lineEnd? cs with
    | some rest => skipLinesFrom fuel rest
    | none => cs

/-- Drops white space, comments and ends of lines. -/
def skipLines (cs : List Char) : List Char := skipLinesFrom (cs.length + 1) cs

/-- Reads items with commas between them and perhaps one after the last, up to a closing character,
at most `fuel` items. -/
def itemsFrom {α : Type} (item : Reader α) (close : Char) (held : List α) : (fuel : Nat) →
    Reader (List α)
  | 0, _ => none
  | fuel + 1, cs =>
    match skipLines cs with
    | [] => none
    | c :: rest =>
      if c = close then some (held.reverse, rest)
      else
        match item (c :: rest) with
        | none => none
        | some (x, rest) =>
          match skipLines rest with
          | ',' :: rest => itemsFrom item close (x :: held) fuel rest
          | d :: rest => if d = close then some ((x :: held).reverse, rest) else none
          | [] => none

/-- A key with the value that a statement gives to it. -/
abbrev Pair := List Key × Key × Span × Value

/-- Reads a key, an equals sign and a value. -/
def pair? (value : Reader Value) : Reader Pair := fun cs =>
  match keys? cs with
  | some ((path, key), '=' :: rest) =>
    let start := skipBlank rest
    (value start).map fun (v, rest) => ((path, key, span start rest, v), rest)
  | _ => none

/-- Reads a value in which arrays and tables between braces nest at most `depth` deep. -/
def valueAt : (depth : Nat) → Reader Value
  | depth, '[' :: rest =>
    match depth with
    | 0 => none
    | depth + 1 =>
      (itemsFrom (valueAt depth) ']' [] (rest.length + 1) rest).map fun (items, rest) =>
        (.array items, rest)
  | depth, '\x7b' :: rest =>
    match depth with
    | 0 => none
    | depth + 1 => do
      let (pairs, rest) ← itemsFrom (pair? (valueAt depth)) '\x7d' [] (rest.length + 1) rest
      let entries ← Entries.assignAll? [] pairs
      pure (.table .inline entries, rest)
  | _, cs =>
    match cs with
    | c :: _ =>
      if c = '"' ∨ c = '\'' then (string? cs).map fun (text, rest) => (.string text, rest)
      else word? cs
    | [] => none

/-- Reads a value. -/
def value? : Reader Value := valueAt maxDepth

/-! ## Statements -/

/-- A statement of a document. -/
inductive Statement where
  /-- A key is given a value. -/
  | pair (p : Pair)
  /-- The header of a table. -/
  | table (path : List Key) (key : Key) (span : Span)
  /-- The header of one more table of an array of tables. -/
  | tables (path : List Key) (key : Key) (span : Span)

/-- Reads a statement. -/
def statement? : Reader Statement := fun cs =>
  match cs with
  | '[' :: '[' :: rest =>
    match keys? rest with
    | some ((path, key), ']' :: ']' :: rest) => some (.tables path key (span cs rest), rest)
    | _ => none
  | '[' :: rest =>
    match keys? rest with
    | some ((path, key), ']' :: rest) => some (.table path key (span cs rest), rest)
    | _ => none
  | _ => (pair? value? cs).map fun (p, rest) => (.pair p, rest)

/-- Reads the rest of a line after a statement: perhaps a comment, and the end of the line or of the
document. -/
def endOfLine? (cs : List Char) : Option (List Char) :=
  let cs := skipComment (skipBlank cs)
  if cs.isEmpty then some [] else lineEnd? cs

/-- Reads the statements of a document, each on a line of its own, at most `fuel` of them. -/
def statementsFrom (held : List Statement) : (fuel : Nat) → List Char → Option (List Statement)
  | 0, _ => none
  | fuel + 1, cs =>
    let cs := skipBlank (skipLines cs)
    if cs.isEmpty then some held.reverse
    else do
      let (s, rest) ← statement? cs
      statementsFrom (s :: held) fuel (← endOfLine? rest)

/-- The statements of a document. A byte order mark at the start is no part of them. -/
def statements? (text : List Char) : Option (List Statement) :=
  let cs := if text.head? = some '\uFEFF' then text.tail else text
  statementsFrom [] (cs.length + 1) cs

end GoldenHarness.Toml

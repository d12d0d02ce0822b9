import GoldenHarness.Journal.Event

/-!
# Choosing events

A filter tells which events are shown. It is a list of directives with commas between them; each gives
the least important level that is shown for a part of the program, for events with certain fields, or
for all events. Of the directives that concern an event, the most specific decides.

A directive has the form `target[span{field=value}]=level`, where every part may be left out. No event
here happens within a span, so directives that ask for a span or for the value of a field choose none.
-/

namespace GoldenHarness.Journal

/-- A directive of a filter. -/
structure Directive where
  /-- How the name of the part of the program begins, if that matters. -/
  target : Option (List Char)
  /-- Whether a span is asked for. -/
  hasSpan : Bool
  /-- The fields that are asked for, and whether a value is asked for too. -/
  fields : List (List Char × Bool)
  /-- The rank of the least important level that is shown, zero if none is. -/
  rank : Nat
deriving DecidableEq, Repr

namespace Directive

/-- The name of a level, in small letters, with its rank. -/
def levels : List (String × Nat) :=
  [("off", 0), ("error", 1), ("warn", 2), ("info", 3), ("debug", 4), ("trace", 5)]

/-- The rank that a word stands for: a number up to five or the name of a level. The empty word stands
for errors. -/
def rank? (w : List Char) : Option Nat :=
  let digits := if w.head? = some '+' then w.tail else w
  if w = [] then some 1
  else if digits ≠ [] ∧ digits.all Char.isDigit then
    let n := digits.foldl (fun n c => n * 10 + (c.toNat - '0'.toNat)) 0
    if n ≤ 5 then some n else none
  else levels.lookup (String.ofList (w.map Char.toLower))

/-- The rank that stands after an equals sign, where nothing means everything. -/
def rankAfter? (w : List Char) : Option Nat :=
  if w = [] then some 5 else rank? w

/-- Where the reader of a directive is. Positions count characters. -/
inductive State where
  /-- At the start. -/
  | start
  /-- In a level or in the name of a target. -/
  | levelOrTarget (start : Nat)
  /-- In the name of a span. -/
  | span (start : Nat)
  /-- In a field. -/
  | field (start : Nat)
  /-- After the last field. -/
  | fields
  /-- After the span and the fields. -/
  | target
  /-- In a level, after the equals sign. -/
  | level (start : Nat)
deriving DecidableEq, Repr

/-- Whether a character may begin a directive. Characters beyond the ASCII range are taken for
letters. -/
def isFirst (c : Char) : Bool :=
  c = '-' ∨ c = ':' ∨ c = '_' ∨ c.isAlphanum ∨ 128 ≤ c.toNat

/-- Adds the field that is written in a stretch of a directive. -/
def addField? (d : Directive) (w : List Char) : Option Directive :=
  if w = [] then none
  else
    some { d with fields := d.fields ++ [(w.takeWhile (· ≠ '='), w.contains '=')] }

/-- Reads the character at position `i` of a directive, whose text is `w`. -/
def step? (w : List Char) (i : Nat) (c : Char) : State × Directive → Option (State × Directive)
  | (.start, d) =>
    if c = '[' then some (.span (i + 1), d)
    else if isFirst c then some (.levelOrTarget i, d)
    else none
  | (.levelOrTarget start, d) =>
    let name := (w.take i).drop start
    if c = '=' then some (.level (i + 1), { d with target := some name })
    else if c = '[' then some (.span (i + 1), { d with target := some name })
    else some (.levelOrTarget start, d)
  | (.span start, d) =>
    if c = ']' then some (.target, { d with hasSpan := true })
    else if c = '\x7b' then some (.field (i + 1), { d with hasSpan := (w.take i).drop start ≠ [] })
    else some (.span start, d)
  | (.field start, d) =>
    if c = '\x7d' then (d.addField? ((w.take i).drop start)).map (.fields, ·)
    else some (.field start, d)
  | (.fields, d) => if c = ']' then some (.target, d) else none
  | (.target, d) => if c = '=' then some (.level (i + 1), d) else none
  | (.level start, d) => some (.level start, d)

/-- Reads the characters of a directive from position `i` on. -/
def stepAll? (w : List Char) : (i : Nat) → List Char → State × Directive →
    Option (State × Directive)
  | _, [], s => some s
  | i, c :: rest, s =>
    match step? w i c s with
    | some s => stepAll? w (i + 1) rest s
    | none => none

/-- The directive at the end of its text. -/
def finish? (w : List Char) : State × Directive → Option Directive
  | (.levelOrTarget start, d) =>
    let name := w.drop start
    match rank? name with
    | some rank => some { d with rank }
    | none => some { d with target := some name }
  | (.level start, d) => (rankAfter? (w.drop start)).map fun rank => { d with rank }
  | (.target, d) => some d
  | _ => none

/-- Reads a directive. White space around it is passed over, but counts for positions. -/
def parse? (w : List Char) : Option Directive :=
  let trimmed := ((w.dropWhile Char.isWhitespace).reverse.dropWhile Char.isWhitespace).reverse
  (stepAll? w 0 trimmed (.start, ⟨none, false, [], 5⟩)).bind (finish? w)

/-- Whether a directive can choose events that happen outside spans. -/
def isStatic (d : Directive) : Bool := ¬ d.hasSpan ∧ d.fields.all (¬ ·.2)

/-- Whether a directive concerns an event. -/
def concerns (d : Directive) (e : Event) : Bool :=
  (d.target.all fun t => t.isPrefixOf e.target.toList) ∧
    d.fields.all fun f =>
      String.ofList f.1 = "message" ∨ e.fields.any (·.1 = String.ofList f.1)

/-- Whether a directive is at least as specific as another: a longer target, or the same length and as
many fields. -/
def isAtLeast (d other : Directive) : Bool :=
  let size (d : Directive) : Nat := d.target.elim 0 fun t => t.length + 1
  size other < size d ∨ (size other = size d ∧ other.fields.length ≤ d.fields.length)

end Directive

/-- A choice of events. -/
abbrev Filter := List Directive

namespace Filter

/-- The directives with commas between them, without empty ones. -/
def split (w : List Char) : List (List Char) :=
  (w.splitOn ',').filter (· ≠ [])

/-- Reads a filter: nothing if any of its directives cannot be read. -/
def parse? (text : String) : Option Filter := (split text.toList).mapM Directive.parse?

/-- Whether an event is shown: as the most specific directive says that concerns it, the last of
equally specific ones. -/
def shows (f : Filter) (e : Event) : Bool :=
  let concerned := f.filter fun d => d.isStatic ∧ d.concerns e
  let deciding := concerned.foldl
    (fun (best : Option Directive) d =>
      match best with
      | none => some d
      | some b => if d.isAtLeast b then some d else some b)
    none
  match deciding with
  | some d => e.level.rank ≤ d.rank
  | none => false

/-- The filter for a verbosity, as it is written. -/
def directiveFor (verbosity : Nat) : String :=
  match verbosity with
  | 0 => "trace_golden=warn"
  | 1 => "trace_golden=debug"
  | _ => "trace_golden=trace"

/-- The filter of a run: the one that is asked for, if that can be read, and otherwise the one for the
verbosity. -/
def choose (asked : Option Bytes) (verbosity : Nat) : Filter :=
  let asked := (asked.bind Utf8.decode?).bind fun text => parse? (String.ofList text)
  asked.getD ((parse? (directiveFor verbosity)).getD [])

end Filter

end GoldenHarness.Journal

import GoldenHarness.Toml.Value

/-!
# Strings, numbers and dates of TOML

The smallest parts of a document. Each reader takes the characters from some place on and gives what
it has read together with the characters that follow. A string reader goes from character to
character in one of a few modes, so that what it accepts can be told mode by mode.
-/

namespace GoldenHarness.Toml

/-- A reader: a value and the characters after it, or nothing if there is no such value. -/
abbrev Reader (α : Type) := List Char → Option (α × List Char)

/-! ## Characters -/

/-- Whether a character is white space inside a line. -/
def isBlank (c : Char) : Bool := c = ' ' ∨ c = '\t'

/-- Whether a character may stand as it is in comments and strings: all but control characters,
among which only the tab is allowed. -/
def isPlain (c : Char) : Bool := c = '\t' ∨ (' ' ≤ c ∧ c ≠ '\x7f')

/-- Whether a character may stand in a key without quotes. -/
def isBare (c : Char) : Bool := c.isAlphanum ∨ c = '_' ∨ c = '-'

/-- Drops white space. -/
def skipBlank (cs : List Char) : List Char := cs.dropWhile isBlank

/-- Drops the end of a line, if there is one here. -/
def lineEnd? : List Char → Option (List Char)
  | '\n' :: rest => some rest
  | '\r' :: '\n' :: rest => some rest
  | _ => none

/-- Drops a comment, if there is one here. -/
def skipComment : List Char → List Char
  | '#' :: rest => rest.dropWhile isPlain
  | cs => cs

/-- The value of a hexadecimal digit. -/
def hexDigit? (c : Char) : Option Nat :=
  if c.isDigit then some (c.toNat - '0'.toNat)
  else if 'a' ≤ c ∧ c ≤ 'f' then some (c.toNat - 'a'.toNat + 10)
  else if 'A' ≤ c ∧ c ≤ 'F' then some (c.toNat - 'A'.toNat + 10)
  else none

/-- The character with a given code point, if there is one. -/
def scalar? (n : Nat) : Option Char :=
  if n.isValidChar then some (Char.ofNat n) else none

/-! ## Strings -/

/-- What a backslash and a letter stand for. -/
def escape? : Char → Option Char
  | 'b' => some '\x08'
  | 't' => some '\t'
  | 'n' => some '\n'
  | 'f' => some '\x0c'
  | 'r' => some '\r'
  | 'e' => some '\x1b'
  | '"' => some '"'
  | '\\' => some '\\'
  | _ => none

/-- How many hexadecimal digits follow a backslash and a letter. -/
def escapeDigits? : Char → Option Nat
  | 'x' => some 2
  | 'u' => some 4
  | 'U' => some 8
  | _ => none

/-- Where a reader is in a string. -/
inductive Mode where
  /-- Between characters. -/
  | plain
  /-- After a backslash. -/
  | escape
  /-- In an escape that still lacks `missing + 1` digits and has the given value so far. -/
  | digits (missing value : Nat)
  /-- After `count + 1` quotes, which may yet turn out to end the string. -/
  | quotes (count : Nat)
  /-- After a carriage return, which a line feed has to follow. -/
  | carriage
  /-- After a backslash and white space, on the same line. -/
  | trimBlank
  /-- After a backslash, white space and the end of a line. -/
  | trimLines
  /-- As `trimBlank` or `trimLines`, after a carriage return. -/
  | trimReturn
deriving DecidableEq, Repr

/-- Reads the character that an escape stands for, given the character after the backslash: either
that character is known, or the digits of its code point follow. -/
def afterBackslash (held : List Char) (c : Char) : Option (List Char × Mode) :=
  match escape? c, escapeDigits? c with
  | some d, _ => some (d :: held, .plain)
  | none, some n => some (held, .digits (n - 1) 0)
  | none, none => none

/-- Reads a digit of an escape. -/
def afterDigit (held : List Char) (missing value : Nat) (c : Char) : Option (List Char × Mode) := do
  let value := value * 16 + (← hexDigit? c)
  match missing with
  | 0 => pure ((← scalar? value) :: held, .plain)
  | missing + 1 => pure (held, .digits missing value)

/-- Reads a string of one line in double quotes, after the first quote, where `held` holds what has
been read, back to front. -/
def basicFrom (held : List Char) (mode : Mode) : Reader (List Char)
  | [] => none
  | c :: rest =>
    match mode with
    | .plain =>
      if c = '"' then some (held.reverse, rest)
      else if c = '\\' then basicFrom held .escape rest
      else if isPlain c then basicFrom (c :: held) .plain rest
      else none
    | .escape =>
      match afterBackslash held c with
      | some (held, mode) => basicFrom held mode rest
      | none => none
    | .digits missing value =>
      match afterDigit held missing value c with
      | some (held, mode) => basicFrom held mode rest
      | none => none
    | _ => none

/-- Reads a string of one line in single quotes, after the first quote. -/
def literalFrom (held : List Char) : Reader (List Char)
  | [] => none
  | c :: rest =>
    if c = '\'' then some (held.reverse, rest)
    else if isPlain c then literalFrom (c :: held) rest
    else none

/-- Reads a string of many lines in the given quotes, after the first three, where `escapes` tells
whether a backslash is special. Three quotes end the string, and up to two may stand before them. -/
def blockFrom (quote : Char) (escapes : Bool) (held : List Char) (mode : Mode) : Reader (List Char)
  | [] =>
    match mode with
    | .quotes count => if 2 ≤ count then some ((held.drop 3).reverse, []) else none
    | _ => none
  | c :: rest =>
    let plain (held : List Char) : Option (List Char × List Char) :=
      if c = quote then blockFrom quote escapes (c :: held) (.quotes 0) rest
      else if c = '\\' ∧ escapes then blockFrom quote escapes held .escape rest
      else if c = '\n' ∨ isPlain c then blockFrom quote escapes (c :: held) .plain rest
      else if c = '\r' then blockFrom quote escapes (c :: held) .carriage rest
      else none
    match mode with
    | .plain => plain held
    | .quotes count =>
      if c = quote then
        if count = 3 then some (((c :: held).drop 3).reverse, rest)
        else blockFrom quote escapes (c :: held) (.quotes (count + 1)) rest
      else if 2 ≤ count then some ((held.drop 3).reverse, c :: rest)
      else plain held
    | .carriage => if c = '\n' then blockFrom quote escapes (c :: held) .plain rest else none
    | .escape =>
      if isBlank c then blockFrom quote escapes held .trimBlank rest
      else if c = '\n' then blockFrom quote escapes held .trimLines rest
      else if c = '\r' then blockFrom quote escapes held .trimReturn rest
      else
        match afterBackslash held c with
        | some (held, mode) => blockFrom quote escapes held mode rest
        | none => none
    | .digits missing value =>
      match afterDigit held missing value c with
      | some (held, mode) => blockFrom quote escapes held mode rest
      | none => none
    | .trimBlank =>
      if isBlank c then blockFrom quote escapes held .trimBlank rest
      else if c = '\n' then blockFrom quote escapes held .trimLines rest
      else if c = '\r' then blockFrom quote escapes held .trimReturn rest
      else none
    | .trimLines =>
      if isBlank c ∨ c = '\n' then blockFrom quote escapes held .trimLines rest
      else if c = '\r' then blockFrom quote escapes held .trimReturn rest
      else plain held
    | .trimReturn => if c = '\n' then blockFrom quote escapes held .trimLines rest else none

/-- Drops the end of the line on which a string of many lines begins. -/
def skipFirstLineEnd (cs : List Char) : List Char := (lineEnd? cs).getD cs

/-- Reads a string of any kind. -/
def string? : Reader (List Char)
  | '"' :: '"' :: '"' :: rest => blockFrom '"' true [] .plain (skipFirstLineEnd rest)
  | '\'' :: '\'' :: '\'' :: rest => blockFrom '\'' false [] .plain (skipFirstLineEnd rest)
  | '"' :: rest => basicFrom [] .plain rest
  | '\'' :: rest => literalFrom [] rest
  | _ => none

/-! ## Numbers -/

/-- The digits of a number in which underscores stand between digits and nowhere else. -/
def grouped? (isDigit : Char → Bool) : List Char → Option (List Char)
  | [] => none
  | [c] => if isDigit c then some [c] else none
  | c :: '_' :: rest => if isDigit c then (grouped? isDigit rest).map (c :: ·) else none
  | c :: rest => if isDigit c then (grouped? isDigit rest).map (c :: ·) else none

/-- The number that digits stand for in a base. -/
def digitsValue (base : Nat) (digits : List Char) : Nat :=
  digits.foldl (fun n c => n * base + (hexDigit? c).getD 0) 0

/-- A sign, if there is one, and what follows. -/
def sign : List Char → Bool × List Char
  | '-' :: rest => (true, rest)
  | '+' :: rest => (false, rest)
  | cs => (false, cs)

/-- A whole number in a base other than ten, after its marker. -/
def based? (base : Nat) (cs : List Char) : Option Value :=
  let isDigit (c : Char) : Bool :=
    match hexDigit? c with
    | some d => d < base
    | none => false
  (grouped? isDigit cs).map fun ds => .integer (digitsValue base ds)

/-- The digits of a number in base ten that does not begin with a zero, unless it is zero. -/
def whole? (cs : List Char) : Option (List Char) :=
  match grouped? Char.isDigit cs with
  | some ('0' :: _ :: _) => none
  | ds => ds

/-- An exponent, after its marker. -/
def exponent? (cs : List Char) : Option Int :=
  let (negative, digits) := sign cs
  (grouped? Char.isDigit digits).map fun ds =>
    let n : Int := digitsValue 10 ds
    if negative then -n else n

/-- A number in base ten, without its sign. -/
def unsigned? (negative : Bool) (cs : List Char) : Option Value :=
  if cs = "inf".toList then some (.float (.infinity negative))
  else if cs = "nan".toList then some (.float .notANumber)
  else
    let isMark (c : Char) : Bool := c = 'e' ∨ c = 'E'
    let coefficient := cs.takeWhile fun c => ¬ isMark c
    let power := cs.dropWhile fun c => ¬ isMark c
    let integral := coefficient.takeWhile (· ≠ '.')
    let part := coefficient.dropWhile (· ≠ '.')
    match whole? integral, part, power with
    | none, _, _ => none
    | some ds, [], [] =>
      let n : Int := digitsValue 10 ds
      some (.integer (if negative then -n else n))
    | some ds, [], _ :: power =>
      (exponent? power).map fun e => .float (.decimal negative (digitsValue 10 ds) e)
    | some ds, _ :: part, power => do
      let ps ← grouped? Char.isDigit part
      let e ← match power with
        | [] => some 0
        | _ :: power => exponent? power
      pure (.float (.decimal negative (digitsValue 10 (ds ++ ps)) (e - ps.length)))

/-- A number, which makes up the whole of `cs`. -/
def number? : List Char → Option Value
  | '0' :: 'x' :: cs => based? 16 cs
  | '0' :: 'o' :: cs => based? 8 cs
  | '0' :: 'b' :: cs => based? 2 cs
  | cs =>
    let (negative, digits) := sign cs
    unsigned? negative digits

/-! ## Dates and times -/

/-- The number that exactly `n` digits stand for, and what follows. -/
def fixed? (n : Nat) (cs : List Char) : Option (Nat × List Char) :=
  let ds := cs.take n
  if ds.length = n ∧ ds.all Char.isDigit then some (digitsValue 10 ds, cs.drop n) else none

/-- The number of days of a month. -/
def daysIn (year month : Nat) : Nat :=
  if month = 2 then
    if year % 4 = 0 ∧ (year % 100 ≠ 0 ∨ year % 400 = 0) then 29 else 28
  else if month = 4 ∨ month = 6 ∨ month = 9 ∨ month = 11 then 30
  else 31

/-- What follows a date, if there is one here. -/
def date? (cs : List Char) : Option (List Char) := do
  let (year, cs) ← fixed? 4 cs
  let '-' :: cs := cs | none
  let (month, cs) ← fixed? 2 cs
  let '-' :: cs := cs | none
  let (day, cs) ← fixed? 2 cs
  guard (1 ≤ month ∧ month ≤ 12 ∧ 1 ≤ day ∧ day ≤ daysIn year month)
  pure cs

/-- What follows the seconds of a time, which may have a fraction. -/
def seconds? (cs : List Char) : Option (List Char) := do
  let (second, cs) ← fixed? 2 cs
  guard (second ≤ 60)
  match cs with
  | '.' :: cs => do
    guard (cs.takeWhile Char.isDigit ≠ [])
    pure (cs.dropWhile Char.isDigit)
  | cs => pure cs

/-- What follows a time, if there is one here. The seconds may be left out. -/
def time? (cs : List Char) : Option (List Char) := do
  let (hour, cs) ← fixed? 2 cs
  let ':' :: cs := cs | none
  let (minute, cs) ← fixed? 2 cs
  guard (hour ≤ 23 ∧ minute ≤ 59)
  match cs with
  | ':' :: cs => seconds? cs
  | cs => pure cs

/-- Whether a text is nothing, or the distance of a time from universal time. -/
def isOffset : List Char → Bool
  | [] => true
  | ['Z'] | ['z'] => true
  | c :: cs =>
    if c = '+' ∨ c = '-' then
      match fixed? 2 cs with
      | some (hour, ':' :: cs) =>
        match fixed? 2 cs with
        | some (minute, []) => hour ≤ 23 ∧ minute ≤ 59
        | _ => false
      | _ => false
    else false

/-- A date, a time, or both, which make up the whole of `cs`. -/
def dateTime? (cs : List Char) : Option Value :=
  let isDateTime : Bool :=
    match date? cs with
    | some [] => true
    | some (c :: rest) =>
      if c = 'T' ∨ c = 't' ∨ c = ' ' then
        match time? rest with
        | some offset => isOffset offset
        | none => false
      else false
    | none => time? cs = some []
  if isDateTime then some (.dateTime cs) else none

/-! ## Words -/

/-- Whether a character may stand in a number, a date or a truth value. -/
def isWordChar (c : Char) : Bool := isBare c ∨ c = '+' ∨ c = '.' ∨ c = ':'

/-- The word that begins here and what follows it. A date takes in a time that a single space sets
apart from it. -/
def word (cs : List Char) : List Char × List Char :=
  let first := cs.takeWhile isWordChar
  let rest := cs.dropWhile isWordChar
  match rest with
  | ' ' :: c :: more =>
    if date? first = some [] ∧ c.isDigit then
      (first ++ ' ' :: (c :: more).takeWhile isWordChar, (c :: more).dropWhile isWordChar)
    else (first, rest)
  | _ => (first, rest)

/-- The value that a word stands for. -/
def wordValue? (w : List Char) : Option Value :=
  if w = "true".toList then some (.boolean true)
  else if w = "false".toList then some (.boolean false)
  else (number? w).or (dateTime? w)

/-- Reads a number, a date or a truth value. -/
def word? : Reader Value := fun cs =>
  let (w, rest) := word cs
  (wordValue? w).map (·, rest)

end GoldenHarness.Toml

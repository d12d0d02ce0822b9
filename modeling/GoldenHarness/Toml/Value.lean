/-!
# Values of a TOML document

The values that a document can give to a key, with the places where keys and values were written. A
table remembers how it came about, because that decides what may still be added to it.
-/

namespace GoldenHarness.Toml

/-- A stretch of a document. Its ends are told by how many characters follow them. -/
structure Span where
  /-- How many characters of the document begin at the start of the stretch. -/
  fromStart : Nat
  /-- How many characters of the document follow the stretch. -/
  afterEnd : Nat
deriving DecidableEq, Repr

/-- A key, as one part of a dotted key. -/
structure Key where
  /-- The text of the key, without quotes and escapes. -/
  name : List Char
  /-- Where the key is written. -/
  span : Span
deriving DecidableEq, Repr

/-- A fractional number, as it is written. -/
inductive Fractional where
  /-- `digits * 10 ^ exponent`, or its negative. -/
  | decimal (negative : Bool) (digits : Nat) (exponent : Int)
  /-- An infinity. -/
  | infinity (negative : Bool)
  /-- Not a number. -/
  | notANumber
deriving DecidableEq, Repr

/-- How a table came about. -/
inductive TableForm where
  /-- The table is written between braces. -/
  | inline
  /-- The table has a header of its own, or is the document. -/
  | header
  /-- The table is named by the header of a table inside it. -/
  | implied
  /-- The table is named by a dotted key. -/
  | dotted
deriving DecidableEq, Repr

/-- A value. -/
inductive Value where
  /-- A text. -/
  | string (text : List Char)
  /-- A whole number. -/
  | integer (n : Int)
  /-- A fractional number. -/
  | float (x : Fractional)
  /-- A truth value. -/
  | boolean (b : Bool)
  /-- A date, a time, or both. -/
  | dateTime (text : List Char)
  /-- An array between brackets. -/
  | array (items : List Value)
  /-- A table. -/
  | table (form : TableForm) (entries : List (Key × Span × Value))
  /-- An array of tables, each with a header; the latest is the last. -/
  | tables (items : List Value)

/-- The entries of a table: each key with the place and the value that it was given. -/
abbrev Entries := List (Key × Span × Value)

end GoldenHarness.Toml

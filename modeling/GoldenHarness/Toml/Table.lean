import GoldenHarness.Toml.Value

/-!
# Building tables

The rules on what a document may add to a table. Every key is given one value. A dotted key may add to
tables that dotted keys have made, and a header may add to any table that is not written between
braces, but only one header may name a table.
-/

namespace GoldenHarness.Toml

namespace Entries

/-- The entry of a key. -/
def lookup? (entries : Entries) (name : List Char) : Option (Key × Span × Value) :=
  List.find? (fun entry => entry.1.name = name) entries

/-- Gives a key another value, without moving its entry. -/
def replace (entries : Entries) (name : List Char) (value : Value) : Entries :=
  List.map (fun entry => if entry.1.name = name then (entry.1, entry.2.1, value) else entry) entries

/-- Removes the entry of a key. -/
def erase (entries : Entries) (name : List Char) : Entries :=
  List.filter (fun entry => entry.1.name ≠ name) entries

/-- Adds an entry, if its key has none yet. -/
def add? (entries : Entries) (key : Key) (span : Span) (value : Value) : Option Entries :=
  match entries.lookup? key.name with
  | some _ => none
  | none => some (entries ++ [(key, span, value)])

/-- Changes the table that a path leads to, given its form and entries. Tables on the way that are
missing are made in the form `fresh`. Of an array of tables, the way leads through the latest. A
dotted key does not pass through a table that has a header. -/
def change? (fresh : TableForm) (f : TableForm → Entries → Option Entries) :
    (path : List Key) → TableForm → Entries → Option Entries
  | [], form, entries => f form entries
  | key :: path, _, entries =>
    match entries.lookup? key.name with
    | none => do
      let inner ← change? fresh f path fresh []
      pure (entries ++ [(key, key.span, .table fresh inner)])
    | some (_, _, .table form inner) =>
      if form = .inline ∨ (fresh = .dotted ∧ form = .header) then none
      else do
        let inner ← change? fresh f path form inner
        pure (entries.replace key.name (.table form inner))
    | some (_, _, .tables items) =>
      match items.getLast? with
      | some (.table form inner) =>
        if fresh = .dotted then none
        else do
          let inner ← change? fresh f path form inner
          pure (entries.replace key.name (.tables (items.dropLast ++ [.table form inner])))
      | _ => none
    | some _ => none

/-- Gives a value to a dotted key, whose last part is `key`. A plain key adds to the table at hand; a
dotted one adds only to a table that dotted keys have made. -/
def assign? (entries : Entries) (path : List Key) (key : Key) (span : Span) (value : Value) :
    Option Entries :=
  change? .dotted
    (fun form inner => if path ≠ [] ∧ form ≠ .dotted then none else inner.add? key span value)
    path .header entries

/-- Gives values to dotted keys, one after the other. -/
def assignAll? (entries : Entries) (pairs : List (List Key × Key × Span × Value)) :
    Option Entries :=
  pairs.foldlM (fun entries (path, key, span, value) => entries.assign? path key span value) entries

/-- Adds a table with a header. It takes over the entries of a table that was only implied. -/
def addTable? (entries : Entries) (path : List Key) (key : Key) (span : Span)
    (pairs : List (List Key × Key × Span × Value)) : Option Entries :=
  change? .implied
    (fun _ inner =>
      match inner.lookup? key.name with
      | none => do (inner.add? key span (.table .header (← assignAll? [] pairs)))
      | some (_, _, .table .implied old) => do
        (inner.erase key.name).add? key span (.table .header (← assignAll? old pairs))
      | some _ => none)
    path .header entries

/-- Adds a table to an array of tables. -/
def addToTables? (entries : Entries) (path : List Key) (key : Key) (span : Span)
    (pairs : List (List Key × Key × Span × Value)) : Option Entries :=
  change? .implied
    (fun _ inner => do
      let item : Value := .table .header (← assignAll? [] pairs)
      match inner.lookup? key.name with
      | none => inner.add? key span (.tables [item])
      | some (_, _, .tables items) => some (inner.replace key.name (.tables (items ++ [item])))
      | some _ => none)
    path .header entries

end Entries

end GoldenHarness.Toml

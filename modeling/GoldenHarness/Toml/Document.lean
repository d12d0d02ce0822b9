import GoldenHarness.Toml.Statement

/-!
# TOML documents

A document is a table. Its statements fall into sections: the pairs before the first header, and then
each header with the pairs after it. A document is read as a whole or not at all, so a fault at its
end keeps all of it from being read.
-/

namespace GoldenHarness.Toml

/-- A header with the pairs that follow it. -/
structure Section where
  /-- Whether the header adds to an array of tables. -/
  isItem : Bool
  /-- The path to the table. -/
  path : List Key
  /-- The last part of the header's key. -/
  key : Key
  /-- Where the header is written. -/
  span : Span
  /-- The pairs after the header. -/
  pairs : List Pair

/-- The pairs before the first header, and the sections after it. -/
def sections : List Statement → List Pair × List Section
  | [] => ([], [])
  | .pair p :: rest =>
    let (pairs, others) := sections rest
    (p :: pairs, others)
  | .table path key span :: rest =>
    let (pairs, others) := sections rest
    ([], ⟨false, path, key, span, pairs⟩ :: others)
  | .tables path key span :: rest =>
    let (pairs, others) := sections rest
    ([], ⟨true, path, key, span, pairs⟩ :: others)

/-- Adds a section to a document. -/
def Entries.addSection? (entries : Entries) (s : Section) : Option Entries :=
  if s.isItem then entries.addToTables? s.path s.key s.span s.pairs
  else entries.addTable? s.path s.key s.span s.pairs

/-- The entries of a document, if it is one. -/
def document? (text : List Char) : Option Entries := do
  let (pairs, others) := sections (← statements? text)
  others.foldlM Entries.addSection? (← Entries.assignAll? [] pairs)

end GoldenHarness.Toml

import GoldenHarness.Text.Utf8
import GoldenHarness.Toml.Value

/-!
# Excerpts

How a fault in a document is shown: the place, the line it is on with the faulty stretch underlined,
and what is wrong. Columns count characters. The underline counts bytes, and ends with the line.
-/

namespace GoldenHarness.Toml.Excerpt

/-- The number of bytes of a text. -/
def size (cs : List Char) : Nat := (Utf8.encode cs).length

/-- What is wrong at a stretch of a document. -/
def render (text : List Char) (span : Span) (message : String) : String :=
  let before := text.take (text.length - span.fromStart)
  let stretch := (text.drop before.length).take (span.fromStart - span.afterEnd)
  let line := before.count '\n' + 1
  let indent := (before.reverse.takeWhile (· ≠ '\n')).length
  let content := (text.drop (before.length - indent)).takeWhile (· ≠ '\n')
  let underline := max 1 (min (size stretch) (size content - indent))
  let gutter := String.ofList (List.replicate ((Nat.repr line).length + 1) ' ')
  let marks := String.ofList (List.replicate (indent + 1) ' ' ++ List.replicate underline '^')
  s!"TOML parse error at line {line}, column {indent + 1}\n{gutter}|\n" ++
    s!"{line} | {String.ofList content}\n{gutter}|{marks}\n{message}\n"

end GoldenHarness.Toml.Excerpt

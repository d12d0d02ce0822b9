/-!
# Lines

A text is cut into lines that keep their ends, so that putting the lines together again gives the
text: a line ends with a line feed, with a carriage return and a line feed, or with a carriage return
that no line feed follows. Only the last line may have no end.
-/

namespace GoldenHarness

/-- A line of text, its end included. -/
abbrev Line := List Char

namespace Line

/-- The lines of a text whose current line begins with `held`, which is kept back to front. -/
def splitFrom (held : List Char) : List Char → List Line
  | [] => if held.isEmpty then [] else [held.reverse]
  | '\n' :: rest => ('\n' :: held).reverse :: splitFrom [] rest
  | '\r' :: '\n' :: rest => ('\n' :: '\r' :: held).reverse :: splitFrom [] rest
  | '\r' :: rest => ('\r' :: held).reverse :: splitFrom [] rest
  | c :: rest => splitFrom (c :: held) rest

/-- The lines of a text. -/
def split (text : List Char) : List Line := splitFrom [] text

/-- Whether a line has an end. -/
def isEnded (line : Line) : Bool :=
  match line.getLast? with
  | some c => c = '\n' ∨ c = '\r'
  | none => false

/-- No character is lost or added by cutting a text into lines. -/
theorem flatten_splitFrom (held text : List Char) :
    (splitFrom held text).flatten = held.reverse ++ text := by
  fun_induction splitFrom held text <;> simp_all

/-- The lines of a text, put together again, are the text. -/
theorem flatten_split (text : List Char) : (split text).flatten = text := by
  simp [split, flatten_splitFrom]

end Line

end GoldenHarness

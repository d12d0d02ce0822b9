/-!
# Text without terminal sequences

Messages that quote the command line are printed without the sequences that terminals obey. A sequence
begins with the escape character; what follows tells how long it is. Other control characters are left
out as well, except white space.
-/

namespace GoldenHarness.Printable

/-- Where a text stands with respect to terminal sequences. -/
inductive State where
  /-- Outside all sequences. -/
  | ground
  /-- After an escape character, and perhaps characters that say more about the sequence. -/
  | escape
  /-- In a sequence with parameters, which ends with a letter. -/
  | parameters
  /-- In a text for the terminal, which ends with a bell or another sequence. -/
  | text
deriving DecidableEq, Repr

/-- Whether a character outside all sequences is printed. -/
def isKept (c : Char) : Bool :=
  c = '\t' ∨ c = '\n' ∨ c = '\x0c' ∨ c = '\r' ∨ (' ' ≤ c ∧ c ≠ '\x7f')

/-- The state after a character. -/
def next (s : State) (c : Char) : State :=
  if c = '\x1b' then .escape
  else if c = '\x18' ∨ c = '\x1a' then .ground
  else
    match s with
    | .ground => .ground
    | .escape =>
      if c = '[' then .parameters
      else if c = ']' ∨ c = 'P' ∨ c = 'X' ∨ c = '^' ∨ c = '_' then .text
      else if '0' ≤ c ∧ c ≤ '~' then .ground
      else .escape
    | .parameters => if '@' ≤ c ∧ c ≤ '~' then .ground else .parameters
    | .text => if c = '\x07' then .ground else .text

/-- The characters of a text that are printed, from a state on. -/
def stripFrom (s : State) : List Char → List Char
  | [] => []
  | c :: rest =>
    if s = .ground ∧ isKept c then c :: stripFrom (next s c) rest else stripFrom (next s c) rest

/-- A text without terminal sequences. -/
def strip (text : String) : String := String.ofList (stripFrom .ground text.toList)

end GoldenHarness.Printable

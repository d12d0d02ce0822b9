import GoldenHarness.Text.Invisible
import GoldenHarness.Text.Utf8

/-!
# Quoted byte strings

Diagnostics show paths and arguments between double quotes, so that a reader can tell where they begin
and end. Quotes and backslashes get a backslash, other characters that could not be seen are written
as escapes, and so are bytes that encode no character.
-/

namespace GoldenHarness.Quoted

/-- The digits of a number in base sixteen, padded with zeros to a width. -/
def hex (width : Nat) (n : Nat) : List Char :=
  let ds := Nat.toDigits 16 n
  List.replicate (width - ds.length) '0' ++ ds

/-- A character between quotes. -/
def char (c : Char) : List Char :=
  if c = '\x00' then ['\\', '0']
  else if c = '\t' then ['\\', 't']
  else if c = '\r' then ['\\', 'r']
  else if c = '\n' then ['\\', 'n']
  else if c = '\\' ∨ c = '"' ∨ c = '\'' then ['\\', c]
  else if Invisible.isInvisible c then ['\\', 'u', '\x7b'] ++ hex 1 c.toNat ++ ['\x7d']
  else [c]

/-- A byte that encodes no character, between quotes. -/
def byte (b : UInt8) : List Char := ['\\', 'x'] ++ (hex 2 b.toNat).map Char.toUpper

/-- A segment of a byte string between quotes. -/
def segment : Utf8.Segment → List Char
  | .scalar c => char c
  | .illFormed bytes => bytes.flatMap byte

/-- A byte string in quotes. -/
def bytes (bs : Bytes) : String :=
  String.ofList ('"' :: (Utf8.segments bs).flatMap segment ++ ['"'])

/-- Several byte strings in quotes, between brackets. -/
def list (bss : List Bytes) : String := "[" ++ ", ".intercalate (bss.map bytes) ++ "]"

end GoldenHarness.Quoted

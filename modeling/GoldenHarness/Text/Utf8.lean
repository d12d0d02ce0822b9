/-!
# Bytes and UTF-8

Paths, arguments, file contents and the output of a decoder are byte strings, and any of them may
fail to be UTF-8. Reading bytes as text is done once, by `Utf8.segments`: it cuts a byte string into
the characters it encodes and the stretches that encode nothing. What is shown to a reader, what
counts as valid text and what a quoted form escapes are all read off the segments.

A stretch that encodes nothing is as long as it can be while still being the beginning of some
character, so a truncated character is one stretch, and a byte that can begin no character is a
stretch of its own.
-/

namespace GoldenHarness

/-- A byte string. -/
abbrev Bytes := List UInt8

namespace Utf8

/-- A piece of a byte string, as far as UTF-8 can make sense of it. -/
inductive Segment where
  /-- A character, well encoded. -/
  | scalar (c : Char)
  /-- Bytes that encode no character. -/
  | illFormed (bytes : Bytes)
deriving DecidableEq, Repr

/-- A character whose first bytes have been read. -/
structure Pending where
  /-- The bytes read so far. -/
  seen : Bytes
  /-- The bits of the character gathered so far. -/
  value : Nat
  /-- The least byte that can come next. -/
  low : UInt8
  /-- The greatest byte that can come next. -/
  high : UInt8
  /-- How many bytes come after the next one. -/
  rest : Nat
deriving DecidableEq, Repr

/-- What a first byte can begin: a whole character, a longer one, or nothing at all. The bounds on
the second byte rule out overlong forms, surrogates and code points beyond the last one. -/
def begin (b : UInt8) : Segment ⊕ Pending :=
  if b < 0x80 then .inl (.scalar (Char.ofNat b.toNat))
  else if b < 0xC2 then .inl (.illFormed [b])
  else if b < 0xE0 then .inr ⟨[b], b.toNat - 0xC0, 0x80, 0xBF, 0⟩
  else if b < 0xF0 then
    .inr ⟨[b], b.toNat - 0xE0, if b = 0xE0 then 0xA0 else 0x80, if b = 0xED then 0x9F else 0xBF, 1⟩
  else if b < 0xF5 then
    .inr ⟨[b], b.toNat - 0xF0, if b = 0xF0 then 0x90 else 0x80, if b = 0xF4 then 0x8F else 0xBF, 2⟩
  else .inl (.illFormed [b])

/-- A reader in the middle of a byte string. -/
structure Reader where
  /-- The segments read so far, the latest first. -/
  done : List Segment
  /-- The character being read, if one has begun. -/
  pending : Option Pending
deriving DecidableEq, Repr

namespace Reader

/-- A reader that has read nothing. -/
def start : Reader := ⟨[], none⟩

/-- Reads a byte where a character can begin. -/
def first (done : List Segment) (b : UInt8) : Reader :=
  match begin b with
  | .inl s => ⟨s :: done, none⟩
  | .inr p => ⟨done, some p⟩

/-- Reads one byte. A byte that cannot continue the pending character closes it and begins anew. -/
def push (r : Reader) (b : UInt8) : Reader :=
  match r.pending with
  | none => first r.done b
  | some p =>
    if p.low ≤ b ∧ b ≤ p.high then
      let value := p.value * 64 + (b.toNat - 0x80)
      match p.rest with
      | 0 => ⟨.scalar (Char.ofNat value) :: r.done, none⟩
      | rest + 1 => ⟨r.done, some ⟨p.seen ++ [b], value, 0x80, 0xBF, rest⟩⟩
    else first (.illFormed p.seen :: r.done) b

/-- The segments, once the bytes have ended. -/
def finish (r : Reader) : List Segment :=
  match r.pending with
  | none => r.done.reverse
  | some p => (.illFormed p.seen :: r.done).reverse

end Reader

/-- The segments of a byte string, in order. -/
def segments (bs : Bytes) : List Segment :=
  (bs.foldl Reader.push Reader.start).finish

/-- The character shown for bytes that encode none. -/
def replacement : Char := '\uFFFD'

/-- How a segment is shown: a character as itself, anything else as one replacement character. -/
def Segment.shown : Segment → Char
  | .scalar c => c
  | .illFormed _ => replacement

/-- The character of a segment that is one. -/
def Segment.scalar? : Segment → Option Char
  | .scalar c => some c
  | .illFormed _ => none

/-- The text shown for a byte string, whatever its bytes. -/
def decodeLossy (bs : Bytes) : List Char :=
  (segments bs).map Segment.shown

/-- The text a byte string encodes, if it encodes one throughout. -/
def decode? (bs : Bytes) : Option (List Char) :=
  (segments bs).mapM Segment.scalar?

/-- The bytes of a text. -/
def encode (cs : List Char) : Bytes :=
  cs.flatMap String.utf8EncodeChar

end Utf8

namespace Bytes

/-- The bytes of a string. -/
def ofString (s : String) : Bytes := Utf8.encode s.toList

/-- The string shown for a byte string. -/
def toStringLossy (bs : Bytes) : String := String.ofList (Utf8.decodeLossy bs)

end Bytes

end GoldenHarness

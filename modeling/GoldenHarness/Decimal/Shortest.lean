/-!
# Shortest decimals

A decimal that is read as a double-precision number stands for the nearest number `m * 2 ^ q` with
`m < 2 ^ 53` and `q ≥ -1074`, and of two that are equally near for the one with the even `m`. It is
shown as the decimal with the fewest digits that is read as the same number. All arithmetic is exact,
on natural numbers.
-/

namespace GoldenHarness

/-- A decimal, `digits * 10 ^ exponent`. -/
structure Decimal where
  /-- The digits. -/
  digits : Nat
  /-- The power of ten that the digits are multiplied by. -/
  exponent : Int
deriving DecidableEq, Repr

namespace Decimal

/-- A positive double-precision number, `mantissa * 2 ^ exponent`. -/
structure Double where
  /-- The digits, as a natural number below `2 ^ 53`. -/
  mantissa : Nat
  /-- The power of two that the digits are multiplied by. -/
  exponent : Int
deriving DecidableEq, Repr

/-- A power of two. -/
def twoPow (n : Nat) : Nat := Nat.pow 2 n

/-- A power of ten. -/
def tenPow (n : Nat) : Nat := Nat.pow 10 n

/-- The nearest natural number to `num / den`, the even one of two. -/
def roundHalfEven (num den : Nat) : Nat :=
  let down := num / den
  match compare (2 * (num % den)) den with
  | .lt => down
  | .gt => down + 1
  | .eq => down + down % 2

namespace Double

/-- The least exponent of a double-precision number. -/
def minExponent : Int := -1074

/-- The greatest exponent of a double-precision number. -/
def maxExponent : Int := 971

/-- The number nearest to `num / den`, which is positive, with the given exponent. -/
def withExponent (num den : Nat) (q : Int) : Double :=
  let m := roundHalfEven (num * twoPow (-q).toNat) (den * twoPow q.toNat)
  if m = twoPow 53 then ⟨twoPow 52, q + 1⟩ else ⟨m, q⟩

/-- The number nearest to `num / den`, which is positive. -/
def nearest (num den : Nat) : Double :=
  let q : Int := (num.log2 : Int) - den.log2 - 53
  let q := if num * twoPow (-q).toNat < den * twoPow q.toNat * twoPow 53 then q else q + 1
  withExponent num den (max q minExponent)

/-- The number that a positive decimal is read as: nothing if it is too large for any. The exponent
is bounded first, which changes no answer and keeps the powers small: a number of `n` bits is at
least `10 ^ (n / 4)` and below `10 ^ (n / 3 + 1)`. -/
def ofDecimal? (d : Decimal) : Option Double :=
  if 400 < (d.digits.log2 / 4 : Nat) + d.exponent then none
  else if (d.digits.log2 / 3 : Nat) + d.exponent < -800 then some ⟨0, minExponent⟩
  else
    let x := nearest (d.digits * tenPow d.exponent.toNat) (tenPow (-d.exponent).toNat)
    if x.exponent > maxExponent then none else some x

/-- The multiple of `10 ^ j` that is read as `x` and is nearest to it, the greater of two, if any
multiple is read as `x`. The numbers that are read as `x` reach half way to its two neighbours, and
the ends belong to them if the mantissa is even; all are counted here in quarters of the last place
of `x`. -/
def onGrid? (x : Double) (j : Int) : Option Decimal :=
  let quarter := twoPow (x.exponent - 2).toNat * tenPow (-j).toNat
  let grid := tenPow j.toNat * twoPow (2 - x.exponent).toNat
  let isNarrow : Bool := x.mantissa = twoPow 52 ∧ minExponent < x.exponent
  let low := (4 * x.mantissa - if isNarrow then 1 else 2) * quarter
  let high := (4 * x.mantissa + 2) * quarter
  let reads (c : Nat) : Bool :=
    if x.mantissa % 2 = 0 then low ≤ c * grid ∧ c * grid ≤ high
    else low < c * grid ∧ c * grid < high
  let value := 4 * x.mantissa * quarter
  let c := value / grid
  match reads c, reads (c + 1) with
  | false, false => none
  | true, false => some ⟨c, j⟩
  | false, true => some ⟨c + 1, j⟩
  | true, true => some ⟨if 2 * value < (2 * c + 1) * grid then c else c + 1, j⟩

/-- The decimal with the fewest digits that is read as a positive number: the one on the coarsest
grid. Seventeen digits are always enough, so a grid is found. -/
def shortest (x : Double) : Decimal :=
  ((List.range 700).findSome? fun i : Nat => x.onGrid? (330 - (i : Int))).getD ⟨0, 0⟩

end Double

/-- The digits of a decimal in positional notation, with a point and at least one digit after it. -/
def positional (d : Decimal) : String :=
  let ds := (Nat.repr d.digits).toList
  let (whole, part) : List Char × List Char :=
    if 0 ≤ d.exponent then (ds ++ List.replicate d.exponent.toNat '0', [])
    else
      let places := (-d.exponent).toNat
      let ds := List.replicate (places + 1 - ds.length) '0' ++ ds
      (ds.take (ds.length - places), ds.drop (ds.length - places))
  let part := (part.reverse.dropWhile (· = '0')).reverse
  String.ofList (whole ++ '.' :: if part.isEmpty then ['0'] else part)

end Decimal

end GoldenHarness

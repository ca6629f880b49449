import SourceTidy.Text.CodePoint

/-!
# Binary floating point numbers

Numbers of the format binary64 as an exact mantissa and exponent. `Binary64.ofDecimal` rounds a decimal fraction to the
nearest number, ties to the even mantissa; `Binary64.text` writes the fewest digits that read back as the same number.
All arithmetic is on natural numbers.
-/

namespace SourceTidy

/-- A number of the format binary64. A finite one is `mantissa * 2 ^ exponent`, with the least exponent that the format
allows for it. -/
inductive Binary64 where
  | nan
  | infinite (negative : Bool)
  | finite (negative : Bool) (mantissa : Nat) (exponent : Int)
  deriving DecidableEq, Repr

namespace Binary64

/-- The exponent of the smallest numbers. -/
def leastExponent : Int := -1074

/-- The exponent of the largest numbers. -/
def greatestExponent : Int := 971

/-- A power of two. -/
def twoTo (n : Nat) : Nat := Nat.pow 2 n

/-- A power of ten. -/
def tenTo (n : Nat) : Nat := Nat.pow 10 n

/-- What a mantissa stays below, but for rounding. -/
def mantissaLimit : Nat := twoTo 53

/-- The least mantissa of the numbers that are not among the smallest. -/
def leastMantissa : Nat := twoTo 52

/-- The natural number nearest to a quotient; of two the even one. -/
def roundQuotient (n d : Nat) : Nat :=
  let q := n / d
  let r := n % d
  if 2 * r < d then q else if d < 2 * r then q + 1 else q + q % 2

/-- The natural number nearest to `n / d / 2 ^ e`. -/
def roundScaled (n d : Nat) (e : Int) : Nat :=
  if 0 ≤ e then roundQuotient n (d * twoTo e.toNat) else roundQuotient (n * twoTo (-e).toNat) d

/-- The number nearest to a positive quotient. -/
def ofQuotient (negative : Bool) (n d : Nat) : Binary64 :=
  let e₀ : Int := (n.log2 : Int) - d.log2 - 53
  let e₁ := if mantissaLimit ≤ roundScaled n d e₀ then e₀ + 1 else e₀
  let e := max e₁ leastExponent
  let m := roundScaled n d e
  let (m, e) := if m = mantissaLimit then (leastMantissa, e + 1) else (m, e)
  if greatestExponent < e then .infinite negative else .finite negative m e

/-- The number of decimal digits of a natural number. -/
def digitCount (n : Nat) : Nat := (Nat.toDigits 10 n).length

/-- The number nearest to `digits * 10 ^ exponent`. -/
def ofDecimal (negative : Bool) (digits : Nat) (exponent : Int) : Binary64 :=
  let magnitude : Int := digitCount digits + exponent
  if digits = 0 || magnitude < -400 then .finite negative 0 leastExponent
  else if 400 < magnitude then .infinite negative
  else if 0 ≤ exponent then ofQuotient negative (digits * tenTo exponent.toNat) 1
  else ofQuotient negative digits (tenTo (-exponent).toNat)

/-- A decimal fraction `digits * 10 ^ exponent` against the interval of the reals that round to a number. The interval
and the number are given as numerators over a common denominator. -/
structure Interval where
  low : Nat
  middle : Nat
  high : Nat
  denominator : Nat
  closed : Bool

/-- The interval of a positive number. -/
def interval (m : Nat) (e : Int) : Interval :=
  let scale := twoTo (e - 2).toNat
  let low := if m = leastMantissa ∧ e ≠ leastExponent then 4 * m - 1 else 4 * m - 2
  ⟨low * scale, 4 * m * scale, (4 * m + 2) * scale, twoTo (2 - e).toNat, m % 2 = 0⟩

/-- Whether `d * 10 ^ p` lies in an interval. -/
def Interval.holds (i : Interval) (p : Int) (d : Nat) : Bool :=
  let up := tenTo (-p).toNat
  let x := d * tenTo p.toNat * i.denominator
  if i.closed then i.low * up ≤ x && x ≤ i.high * up else i.low * up < x && x < i.high * up

/-- The neighbours of the middle of an interval on the grid `10 ^ p` that lie in it, the nearer one first. -/
def Interval.candidates (i : Interval) (p : Int) : List Nat :=
  let n := i.middle * tenTo (-p).toNat
  let d := i.denominator * tenTo p.toNat
  let q := n / d
  let nearFirst := if 2 * (n % d) < d || (2 * (n % d) = d && q % 2 = 0) then [q, q + 1] else [q + 1, q]
  nearFirst.filter (i.holds p)

/-- The fewest digits that read back as a positive number: the digits, and the power of ten of the last one. The grids
from `10 ^ p` on are tried, from coarse to fine, a given number of them. -/
def shortest (i : Interval) (p : Int) : Nat → Nat × Int
  | 0 => (i.middle / i.denominator, 0)
  | count + 1 =>
    match i.candidates p with
    | d :: _ => (d, p)
    | [] => shortest i (p - 1) count

/-- The power of ten just above a positive number `n / d`. -/
def decimalPlace (n d : Nat) : Int := (digitCount (n * tenTo 400 / d) : Int) - 400

/-- Digits with a point in them or zeros around them: `place` digits come before the point. -/
def positional (digits : Text) (place : Int) : Text :=
  if place ≤ 0 then "0." ++ List.replicate (-place).toNat ('0' : CodePoint) ++ digits
  else if digits.length ≤ place.toNat then
    digits ++ List.replicate (place.toNat - digits.length) ('0' : CodePoint) ++ ".0"
  else digits.take place.toNat ++ "." ++ digits.drop place.toNat

/-- Digits with a power of ten behind them, which has a sign and at least two digits. -/
def scientific (digits : Text) (place : Int) : Text :=
  let power := (place - 1).natAbs
  let fraction : Text := if digits.length ≤ 1 then [] else "." ++ digits.drop 1
  digits.take 1 ++ fraction ++ "e" ++ (if place - 1 < 0 then "-" else "+" : String)
    ++ (if power < 10 then "0" else "" : String) ++ Text.ofNat power

/-- The text of a number: the fewest digits that read back, positional from `10 ^ -4` up to below `10 ^ 16`. -/
def text : Binary64 → Text
  | nan => "nan"
  | infinite negative => if negative then "-inf" else "inf"
  | finite negative m e =>
    let sign : Text := if negative then "-" else ""
    if m = 0 then sign ++ "0.0"
    else
      let i := interval m e
      let place := decimalPlace i.middle i.denominator
      let (d, p) := shortest i (place - 1) 17
      let digits := Text.ofNat d
      let kept := Text.dropRightWhile (· == '0') digits
      let place := p + digits.length
      sign ++ if -4 < place && place ≤ 16 then positional kept place else scientific kept place

/-- Whether a number is a natural number. -/
def equalsNat (x : Binary64) (n : Nat) : Bool :=
  match x with
  | finite negative m e =>
    if 0 ≤ e then m * twoTo e.toNat == n && (n == 0 || !negative)
    else m == n * twoTo (-e).toNat && (n == 0 || !negative)
  | _ => false

end Binary64
end SourceTidy

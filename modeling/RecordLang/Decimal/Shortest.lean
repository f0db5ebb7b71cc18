import RecordLang.Decimal.Integer
import RecordLang.Double

/-! # The shortest decimal of a double

A double is written with the fewest significant digits that read back as the same double; among
decimals of that length the nearest one is taken, and of two equally near ones the greater.
Numbers from `10 ^ -4` up to `10 ^ 16` are written with a point and at least one digit after it,
all others with an exponent.
-/

namespace RecordLang.Decimal

/-- The decimal `digits * 10 ^ exponent`. -/
structure Scaled where
  digits : Nat
  exponent : Int

/-- The exponent of the leading digit of `num / den`, which lies above `10 ^ -330`. -/
def leadingExponent (num den : Nat) : Int :=
  ((Nat.toDigits 10 (num * Nat.pow 10 340 / den)).length : Int) - 341

/-- The numbers that read back as a given double lie between `low / den` and `high / den`, the ends
included if `closed`; the double itself is `mid / den`. -/
structure Interval where
  low : Nat
  mid : Nat
  high : Nat
  den : Nat
  closed : Bool

/-- The interval of a positive finite double. Its lower half is half as wide where the exponent
changes. -/
def Interval.ofDouble (d : Double) : Interval :=
  let m := d.significand
  let q := d.exponent - 2
  let up := 1 <<< q.toNat
  let below := if d.fractionField = 0 && 1 < d.exponentField then 1 else 2
  { low := (4 * m - below) * up
    mid := 4 * m * up
    high := (4 * m + 2) * up
    den := 1 <<< (-q).toNat
    closed := m % 2 = 0 }

/-- The interval in units of `10 ^ k`. -/
def Interval.scale (i : Interval) (k : Int) : Interval :=
  let up := Nat.pow 10 (-k).toNat
  { i with
    low := i.low * up
    mid := i.mid * up
    high := i.high * up
    den := i.den * Nat.pow 10 k.toNat }

/-- Whether the whole number `n` lies in the interval. -/
def Interval.holds (i : Interval) (n : Nat) : Bool :=
  if i.closed then i.low ≤ n * i.den && n * i.den ≤ i.high
  else i.low < n * i.den && n * i.den < i.high

/-- The whole number in the interval that is nearest to its middle, if the one below or the one
above the middle lies in it. -/
def Interval.nearest? (i : Interval) : Option Nat :=
  let n := i.mid / i.den
  match i.holds n, i.holds (n + 1) with
  | true, true => if 2 * (i.mid % i.den) < i.den then some n else some (n + 1)
  | true, false => some n
  | false, true => some (n + 1)
  | false, false => none

/-- Tries the grids of `count` more numbers of digits, coarse ones first; the last one always has a
point in the interval, since seventeen digits tell any two doubles apart. -/
def Interval.search (i : Interval) (k : Int) : Nat → Scaled
  | 0 => ⟨i.mid / i.den, 0⟩
  | count + 1 =>
    match (i.scale k).nearest? with
    | some n => ⟨n, k⟩
    | none => i.search (k - 1) count

def dropZeros : List Char → List Char := fun cs => (cs.reverse.dropWhile (· = '0')).reverse

/-- The significant digits of a positive finite double and the exponent of the first of them. -/
def shortest (d : Double) : List Char × Int :=
  let i := Interval.ofDouble d
  let s := i.search (leadingExponent i.mid i.den) 18
  let ds := Nat.toDigits 10 s.digits
  (dropZeros ds, s.exponent + ds.length - 1)

/-- Numbers with leading exponents from `-4` to `15` are written without an exponent. -/
def isPositional (e : Int) : Bool := -4 ≤ e && e < 16

/-- Writes digits with a point after the digit of exponent zero. -/
def positional (ds : List Char) (e : Int) : List Char :=
  if e < 0 then '0' :: '.' :: List.replicate (-e - 1).toNat '0' ++ ds
  else
    let whole := e.toNat + 1
    let fraction := ds.drop whole
    (ds.take whole).rightpad whole '0' ++ '.' :: (if fraction.isEmpty then ['0'] else fraction)

/-- Writes digits with a point after the first one, if others follow, and an exponent. -/
def scientific (ds : List Char) (e : Int) : List Char :=
  ds.take 1 ++ (if ds.length ≤ 1 then [] else '.' :: ds.drop 1) ++ 'e' :: (intText e).toList

def magnitudeText (d : Double) : String :=
  let (ds, e) := shortest d
  String.ofList (if isPositional e then positional ds e else scientific ds e)

end RecordLang.Decimal

namespace RecordLang.Double

def text (d : Double) : String :=
  let sign := if d.isNegative then "-" else ""
  if d.isNaN then "NaN"
  else if d.isFinite then
    if d.significand = 0 then sign ++ "0.0" else sign ++ Decimal.magnitudeText d
  else sign ++ "inf"

end RecordLang.Double

import RecordLang.Decimal.Integer
import RecordLang.Double

/-! # The nearest double

A positive ratio of whole numbers is rounded to the nearest double, a tie going to the even
significand and what lies beyond the largest double to infinity. Decimal text is read exactly and
then rounded once.
-/

namespace RecordLang.Decimal

open Text

/-- The quotient rounded to the nearest whole number, a tie going to the even one. -/
def roundDiv (num den : Nat) : Nat :=
  let q := num / den
  let r := num % den
  if 2 * r < den then q else if den < 2 * r then q + 1 else q + q % 2

/-- The exponent of the greatest power of two that is at most `num / den`. -/
def floorLog2 (num den : Nat) : Int :=
  let e : Int := (num.log2 : Int) - den.log2
  if num <<< (-e).toNat < den <<< e.toNat then e - 1 else e

def infinityBits : Nat := 2047 <<< 52

/-- The bit pattern of the double nearest to `num / den`, for positive `num` and `den`. The exponent
`q` of the last place is chosen so that the significand has fifty-three bits, or fewer at the least
exponent; a significand that rounds up to the next power of two carries into the exponent. -/
def nearestBits (num den : Nat) : Nat :=
  let q := max (floorLog2 num den - 52) (-1074)
  let m := roundDiv (num <<< (-q).toNat) (den <<< q.toNat)
  min ((q + 1074).toNat <<< 52 + m) infinityBits

/-- The bit pattern of the double nearest to `n * 10 ^ e`. Numbers of at least `10 ^ 400` are beyond
every double, those below `10 ^ -400` round to zero. -/
def scaledBits (n : Nat) (e : Int) : Nat :=
  let size : Int := (Nat.toDigits 10 n).length + e
  if n = 0 then 0
  else if 400 < size then infinityBits
  else if size < -400 then 0
  else nearestBits (n * Nat.pow 10 e.toNat) (Nat.pow 10 (-e).toNat)

/-- The decimal exponent after an `e`: an optional sign and one or more digits. -/
def readExponent? : List Char → Option Int
  | [] => some 0
  | c :: cs => if c = 'e' || c = 'E' then readInt? cs else none

/-- The bit pattern of an unsigned decimal: digits with at most one point among or beside them, then
an optional exponent. -/
def readMagnitude? (cs : List Char) : Option Nat :=
  let whole := cs.takeWhile isDigit
  let (fraction, tail) :=
    match cs.dropWhile isDigit with
    | '.' :: rest => (rest.takeWhile isDigit, rest.dropWhile isDigit)
    | rest => ([], rest)
  if whole.isEmpty && fraction.isEmpty then none
  else (readExponent? tail).map fun e =>
    scaledBits (digitsValue (whole ++ fraction)) (e - fraction.length)

def nanBits : Nat := infinityBits + 1 <<< 51

/-- Reads a decimal, or one of the words `inf`, `infinity` and `nan` in any case. -/
def readUnsigned? (cs : List Char) : Option Nat :=
  let word := String.ofList (cs.map Char.toLower)
  if word = "inf" || word = "infinity" then some infinityBits
  else if word = "nan" then some nanBits
  else readMagnitude? cs

def readDouble? : List Char → Option Double
  | '-' :: cs => (readUnsigned? cs).map fun n => Double.neg ⟨n.toUInt64⟩
  | '+' :: cs => (readUnsigned? cs).map fun n => ⟨n.toUInt64⟩
  | cs => (readUnsigned? cs).map fun n => ⟨n.toUInt64⟩

def nearestInt (n : Int) : Double :=
  let d : Double := if n = 0 then ⟨0⟩ else ⟨(nearestBits n.natAbs 1).toUInt64⟩
  if n < 0 then d.neg else d

end RecordLang.Decimal

import RecordLang.Text.Letter

/-! # Whole numbers in decimal

The written form has no leading zeros and a minus sign for negative numbers. Reading accepts an
optional sign followed by one or more digits, leading zeros included.
-/

namespace RecordLang.Decimal

open Text

def natText (n : Nat) : String := String.ofList (Nat.toDigits 10 n)

def intText (n : Int) : String :=
  if n < 0 then "-" ++ natText n.natAbs else natText n.natAbs

def digitValue (c : Char) : Nat := c.toNat - '0'.toNat

/-- The number that a row of digits denotes. -/
def digitsValue (cs : List Char) : Nat := cs.foldl (fun n c => 10 * n + digitValue c) 0

def readNat? (cs : List Char) : Option Nat :=
  if !cs.isEmpty && cs.all isDigit then some (digitsValue cs) else none

def readInt? : List Char → Option Int
  | '-' :: cs => (readNat? cs).map fun n => -(n : Int)
  | '+' :: cs => (readNat? cs).map Int.ofNat
  | cs => (readNat? cs).map Int.ofNat

/-- The 64-bit signed word of a number, if the number is in their range. -/
def word? (n : Int) : Option Int64 :=
  if Int64.minValue.toInt ≤ n ∧ n ≤ Int64.maxValue.toInt then some (Int64.ofInt n) else none

/-- Puts a digit behind those of a number, which goes away from zero by that. Neither ten times the
number nor the result may leave the range of words. -/
def appendDigit? (negative : Bool) (n : Int64) (c : Char) : Option Int64 :=
  if isDigit c then do
    let shifted ← word? (10 * n.toInt)
    word? (if negative then shifted.toInt - digitValue c else shifted.toInt + digitValue c)
  else none

def readMagnitude64? (negative : Bool) (cs : List Char) : Option Int64 :=
  if cs.isEmpty then none else cs.foldlM (appendDigit? negative) 0

/-- Reads a number in the range of 64-bit signed words. -/
def readInt64? : List Char → Option Int64
  | '-' :: cs => readMagnitude64? true cs
  | '+' :: cs => readMagnitude64? false cs
  | cs => readMagnitude64? false cs

/-- Reads a number in the range of 64-bit unsigned words; a plus sign may stand before it. -/
def readWord? : List Char → Option Nat
  | '+' :: cs => (readNat? cs).filter (· < UInt64.size)
  | cs => (readNat? cs).filter (· < UInt64.size)

end RecordLang.Decimal

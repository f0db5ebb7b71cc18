/-! # Double-precision numbers

A double is kept as its bit pattern, so that equality of doubles is equality of patterns and every
pattern, each NaN included, is a value of its own. Arithmetic is that of IEEE 754.
-/

namespace RecordLang

/-- A double-precision number by its bit pattern. -/
structure Double where
  bits : UInt64
  deriving DecidableEq, Inhabited

namespace Double

def toFloat (d : Double) : Float := Float.ofBits d.bits

def ofFloat (x : Float) : Double := ⟨x.toBits⟩

def add (a b : Double) : Double := ofFloat (a.toFloat + b.toFloat)

def sub (a b : Double) : Double := ofFloat (a.toFloat - b.toFloat)

def mul (a b : Double) : Double := ofFloat (a.toFloat * b.toFloat)

def div (a b : Double) : Double := ofFloat (a.toFloat / b.toFloat)

def signBit : UInt64 := 0x8000000000000000

/-- Negation flips the sign bit, also of zeros and NaNs. -/
def neg (d : Double) : Double := ⟨d.bits ^^^ signBit⟩

/-- Numerical equality: zeros of both signs are equal and a NaN equals nothing. -/
def same (a b : Double) : Bool := a.toFloat == b.toFloat

def less (a b : Double) : Bool := decide (a.toFloat < b.toFloat)

def lessEq (a b : Double) : Bool := decide (a.toFloat ≤ b.toFloat)

def isNegative (d : Double) : Bool := d.bits &&& signBit != 0

def exponentField (d : Double) : Nat := (d.bits >>> 52 &&& 0x7FF).toNat

def fractionField (d : Double) : Nat := (d.bits &&& 0xFFFFFFFFFFFFF).toNat

def isFinite (d : Double) : Bool := d.exponentField != 2047

def isNaN (d : Double) : Bool := d.exponentField == 2047 && d.fractionField != 0

/-- A finite double's magnitude is `significand * 2 ^ exponent`. -/
def significand (d : Double) : Nat :=
  if d.exponentField = 0 then d.fractionField else 1 <<< 52 + d.fractionField

def exponent (d : Double) : Int :=
  if d.exponentField = 0 then -1074 else (d.exponentField : Int) - 1075

/-- The magnitude of a finite double with its fraction cut off. -/
def wholePart (d : Double) : Nat :=
  if 0 ≤ d.exponent then d.significand <<< d.exponent.toNat
  else d.significand >>> (-d.exponent).toNat

/-- The double with its fraction cut off, if it is finite and fits in a signed word. -/
def truncate? (d : Double) : Option Int64 :=
  if d.isFinite then
    let n : Int := if d.isNegative then -(d.wholePart : Int) else d.wholePart
    if Int64.minValue.toInt ≤ n ∧ n ≤ Int64.maxValue.toInt then some (Int64.ofInt n) else none
  else none

end Double

end RecordLang

import RecordLang.Decimal.Nearest
import RecordLang.Fault
import RecordLang.Text.Blank

/-! # Operations on values

What the instructions compute from their operands. Integers wrap around, nil is no operand except of
the tests for equality, and those hold of values of one kind only.
-/

namespace RecordLang

namespace Value

/-- Equality as programs see it: that of numbers on doubles, and identity otherwise. -/
def same : Value → Value → Bool
  | .double a, .double b => a.same b
  | a, b => a = b

def asInt : Value → Except Cause Int64
  | .int n => .ok n
  | .nil => .error .nilReference
  | v => .error (.typeMismatch (.expected "int" v))

def asString : Value → Except Cause String
  | .string s => .ok s
  | .nil => .error .nilReference
  | v => .error (.typeMismatch (.expected "string" v))

def asObject : Value → Except Cause Nat
  | .object id => .ok id
  | .nil => .error .nilReference
  | v => .error (.typeMismatch (.expected "object" v))

end Value

/-- The cause of a fault when an instruction cannot work on a value. -/
def Instruction.unfit (i : Instruction) : Value → Cause
  | .nil => .nilReference
  | v => .typeMismatch (.operand i v)

namespace BinOp

def unfit (op : BinOp) (a b : Value) : Except Cause Value :=
  .error (.typeMismatch (.operands (.binary op) a b))

def onInts (op : BinOp) (x y : Int64) : Except Cause Value :=
  match op with
  | .add => .ok (.int (x + y))
  | .sub => .ok (.int (x - y))
  | .mul => .ok (.int (x * y))
  | .div => if y = 0 then .error .divisionByZero else .ok (.int (x / y))
  | .mod => if y = 0 then .error .divisionByZero else .ok (.int (x % y))
  | .lt => .ok (.bool (x < y))
  | .le => .ok (.bool (x ≤ y))
  | .gt => .ok (.bool (y < x))
  | .ge => .ok (.bool (y ≤ x))
  | _ => op.unfit (.int x) (.int y)

/-- No comparison holds of a NaN. -/
def onDoubles (op : BinOp) (x y : Double) : Except Cause Value :=
  match op with
  | .add => .ok (.double (x.add y))
  | .sub => .ok (.double (x.sub y))
  | .mul => .ok (.double (x.mul y))
  | .div => .ok (.double (x.div y))
  | .lt => .ok (.bool (x.less y))
  | .le => .ok (.bool (x.lessEq y))
  | .gt => .ok (.bool (y.less x))
  | .ge => .ok (.bool (y.lessEq x))
  | _ => op.unfit (.double x) (.double y)

/-- Strings are ordered by the code points of their characters. -/
def onStrings (op : BinOp) (x y : String) : Except Cause Value :=
  match op with
  | .add => .ok (.string (x ++ y))
  | .lt => .ok (.bool (x < y))
  | .le => .ok (.bool (¬ y < x))
  | .gt => .ok (.bool (y < x))
  | .ge => .ok (.bool (¬ x < y))
  | _ => op.unfit (.string x) (.string y)

def onBools (op : BinOp) (x y : Bool) : Except Cause Value :=
  match op with
  | .and => .ok (.bool (x && y))
  | .or => .ok (.bool (x || y))
  | _ => op.unfit (.bool x) (.bool y)

/-- The result of an operator that both operands have to be there for. -/
def onOperands (op : BinOp) : Value → Value → Except Cause Value
  | .nil, _ => .error .nilReference
  | _, .nil => .error .nilReference
  | .int x, .int y => op.onInts x y
  | .double x, .double y => op.onDoubles x y
  | .string x, .string y => op.onStrings x y
  | .bool x, .bool y => op.onBools x y
  | a, b => op.unfit a b

def apply (op : BinOp) (a b : Value) : Except Cause Value :=
  match op with
  | .eq => .ok (.bool (a.same b))
  | .ne => .ok (.bool (!a.same b))
  | _ => op.onOperands a b

end BinOp

namespace Value

def neg : Value → Except Cause Value
  | .int n => .ok (.int (-n))
  | .double d => .ok (.double d.neg)
  | v => .error (Instruction.neg.unfit v)

def not : Value → Except Cause Value
  | .bool b => .ok (.bool !b)
  | v => .error (Instruction.not.unfit v)

def length (v : Value) : Except Cause Value :=
  match v.asString with
  | .ok s => .ok (.int (Int64.ofNat s.length))
  | .error e => .error e

/-- The character of a string at an index that counts from zero. -/
def charAt (s : String) (index : Int64) : Except Cause Value :=
  match if 0 ≤ index then s.toList[index.toInt.toNat]? else none with
  | some c => .ok (.string c.toString)
  | none => .error (.indexOutOfRange index s.length)

/-- Doubles lose their fraction; strings are read without the blanks around them. -/
def toInt : Value → Except Cause Value
  | .int n => .ok (.int n)
  | .double d =>
    match d.truncate? with
    | some n => .ok (.int n)
    | none => .error (.badConversion (.outOfRange d))
  | .string s =>
    match Decimal.readInt64? (Text.trimBlanks s.toList) with
    | some n => .ok (.int n)
    | none => .error (.badConversion (.notInt s))
  | v => .error (Instruction.toInt.unfit v)

def toDouble : Value → Except Cause Value
  | .int n => .ok (.double (Decimal.nearestInt n.toInt))
  | .double d => .ok (.double d)
  | .string s =>
    match Decimal.readDouble? (Text.trimBlanks s.toList) with
    | some d => .ok (.double d)
    | none => .error (.badConversion (.notDouble s))
  | v => .error (Instruction.toDouble.unfit v)

def toText : Value → Except Cause Value
  | .int n => .ok (.string (Value.int n).text)
  | .double d => .ok (.string (Value.double d).text)
  | .string s => .ok (.string s)
  | v => .error (Instruction.toText.unfit v)

end Value

end RecordLang

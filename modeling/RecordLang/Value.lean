import RecordLang.Decimal.Shortest

/-! # Values

The values that programs compute with. Characters are strings of length one, and records are known
by the number of their object.
-/

namespace RecordLang

inductive Value where
  | int (value : Int64)
  | double (value : Double)
  | bool (value : Bool)
  | string (value : String)
  | object (id : Nat)
  | nil
  deriving DecidableEq, Inhabited

namespace Value

/-- The kind of value, as messages name it. -/
def kind : Value → String
  | .int _ => "int"
  | .double _ => "double"
  | .bool _ => "bool"
  | .string _ => "string"
  | .object _ => "object"
  | .nil => "nil"

def isNil : Value → Bool
  | .nil => true
  | _ => false

def text : Value → String
  | .int n => Decimal.intText n.toInt
  | .double d => d.text
  | .bool true => "true"
  | .bool false => "false"
  | .string s => s
  | .object id => Decimal.natText id
  | .nil => "nil"

end Value

end RecordLang

/-! # Types

`nil` is the type of the literal `nil` alone; it fits wherever a value is expected. `void` is the
type of calls that yield nothing of use.
-/

namespace RecordLang

inductive Ty where
  | int
  | double
  | bool
  | char
  | string
  | void
  | nil
  | record (name : String)
  deriving DecidableEq, Inhabited

namespace Ty

def text : Ty → String
  | .int => "int"
  | .double => "double"
  | .bool => "bool"
  | .char => "char"
  | .string => "string"
  | .void => "void"
  | .nil => "nil"
  | .record name => name

def isNumeric : Ty → Bool
  | .int | .double => true
  | _ => false

def isOrdered : Ty → Bool
  | .int | .double | .char | .string => true
  | _ => false

def isRecord : Ty → Bool
  | .record _ => true
  | _ => false

/-- Whether a value of the second type may stand where one of the first is expected. -/
def accepts (expected found : Ty) : Bool := found = .nil || expected = found

end Ty

end RecordLang

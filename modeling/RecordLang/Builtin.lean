import RecordLang.Ty

/-! # Built-in functions

Their names cannot be declared anew. Printing takes a value of any type; the others take values of
exactly the given types.
-/

namespace RecordLang

inductive Builtin where
  | print | read | length | get | stoi | stod | itos | itod | dtos | dtoi
  deriving DecidableEq

namespace Builtin

def all : List Builtin :=
  [.print, .read, .length, .get, .stoi, .stod, .itos, .itod, .dtos, .dtoi]

def name : Builtin → String
  | .print => "print"
  | .read => "read"
  | .length => "length"
  | .get => "get"
  | .stoi => "stoi"
  | .stod => "stod"
  | .itos => "itos"
  | .itod => "itod"
  | .dtos => "dtos"
  | .dtoi => "dtoi"

def ofName? (s : String) : Option Builtin := all.find? (·.name = s)

/-- The types of the arguments, `none` standing for any type. -/
def params : Builtin → List (Option Ty)
  | .print => [none]
  | .read => []
  | .length => [some .string]
  | .get => [some .int, some .string]
  | .stoi => [some .string]
  | .stod => [some .string]
  | .itos => [some .int]
  | .itod => [some .int]
  | .dtos => [some .double]
  | .dtoi => [some .double]

def ret : Builtin → Ty
  | .print => .void
  | .read => .string
  | .length => .int
  | .get => .char
  | .stoi => .int
  | .stod => .double
  | .itos => .string
  | .itod => .double
  | .dtos => .string
  | .dtoi => .int

end Builtin

end RecordLang

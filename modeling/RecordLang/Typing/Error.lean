import RecordLang.Program

/-! # Violations of the typing rules

Each violation is a cause with the names and types it concerns; most have a place.
-/

namespace RecordLang

inductive Bound where
  | start
  | stop
  deriving DecidableEq

inductive Violation where
  | duplicateName (name : String)
  | duplicateParam (name : String)
  | duplicateField (field record : String)
  | duplicateVariable (name : String)
  | notVariableType (ty : Ty)
  | undefinedType (name : String)
  | undefinedVariable (name : String)
  | undefinedFunction (name : String)
  | selfConstruction (record : String)
  | missingMain
  | mainSignature
  | assignment (value target : Ty)
  | assignToType (name : String)
  | assignToFunction (name : String)
  | condition (ty : Ty)
  | loopCondition (ty : Ty)
  | bound (which : Bound) (ty : Ty)
  | returnType (expected found : Ty)
  | deleteNonRecord (name : String) (ty : Ty)
  | initType (expected found : Ty)
  | untypedNil (name : String)
  | voidInit (name : String)
  | operands (op : BinOp) (left right : Ty)
  | notOperand (ty : Ty)
  | negOperand (ty : Ty)
  | notVariable (name : String)
  | notRecord (owner : String) (ty : Ty)
  | noField (record field : String)
  | emptyPath
  | argumentCount (name : String) (expected found : Nat)
  | argument (param name : String) (expected found : Ty)
  | builtinArgument (name : String) (expected found : Ty)
  deriving DecidableEq

namespace Violation

def quote (s : String) : String := "'" ++ s ++ "'"

def text : Violation → String
  | .duplicateName n => "duplicate declaration of " ++ quote n
  | .duplicateParam n => "duplicate parameter " ++ quote n
  | .duplicateField f r => "duplicate field " ++ quote f ++ " in type " ++ quote r
  | .duplicateVariable n => "variable " ++ quote n ++ " already declared in this scope"
  | .notVariableType t => quote t.text ++ " is not a valid variable type"
  | .undefinedType n => "undefined type " ++ quote n
  | .undefinedVariable n => "undefined variable " ++ quote n
  | .undefinedFunction n => "undefined function " ++ quote n
  | .selfConstruction r => "type " ++ quote r ++ " constructs itself in a field initializer"
  | .missingMain => "missing main function"
  | .mainSignature => "main must take no parameters and return void"
  | .assignment v t => "cannot assign " ++ v.text ++ " to " ++ t.text
  | .assignToType n => "cannot assign to type name " ++ quote n
  | .assignToFunction n => "cannot assign to function name " ++ quote n
  | .condition t => "condition must be bool, found " ++ t.text
  | .loopCondition t => "while condition must be bool, found " ++ t.text
  | .bound .start t => "for-loop start must be int, found " ++ t.text
  | .bound .stop t => "for-loop end must be int, found " ++ t.text
  | .returnType e f => "expecting return type " ++ e.text ++ ", found " ++ f.text
  | .deleteNonRecord n t => "delete requires a record variable, " ++ quote n ++ " is " ++ t.text
  | .initType e f => "expecting " ++ e.text ++ ", found " ++ f.text
  | .untypedNil n => "nil initializer for " ++ quote n ++ " requires an explicit type"
  | .voidInit n => "cannot initialize " ++ quote n ++ " with a void value"
  | .operands o l r =>
    "invalid operand types for " ++ quote o.text ++ ": " ++ l.text ++ " and " ++ r.text
  | .notOperand t => "'not' requires bool, found " ++ t.text
  | .negOperand t => "'neg' requires int or double, found " ++ t.text
  | .notVariable n => quote n ++ " is not a variable"
  | .notRecord o t => quote o ++ " is " ++ t.text ++ ", not a record"
  | .noField r f => "type " ++ quote r ++ " has no field " ++ quote f
  | .emptyPath => "empty variable path"
  | .argumentCount n e f =>
    quote n ++ " expects " ++ Decimal.natText e ++ " argument(s), found " ++ Decimal.natText f
  | .argument p n e f =>
    "argument " ++ quote p ++ " of " ++ quote n ++ " expects " ++ e.text ++ ", found " ++ f.text
  | .builtinArgument n e f => quote n ++ " expects " ++ e.text ++ ", found " ++ f.text

end Violation

structure TypeError where
  pos : Option Position
  violation : Violation
  deriving DecidableEq

namespace TypeError

def text (e : TypeError) : String := e.violation.text

def message (e : TypeError) : String :=
  match e.pos with
  | some p => p.remark e.text
  | none => e.text

end TypeError

def violated {α : Type} (p : Position) (v : Violation) : Except TypeError α := .error ⟨some p, v⟩

end RecordLang

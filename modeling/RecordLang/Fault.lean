import RecordLang.Bytecode.Balance

/-! # Faults

What can go wrong when code runs, and where it went wrong.
-/

namespace RecordLang

/-- An instruction met operands of a kind that it does not work on. -/
inductive Mismatch where
  | operand (instr : Instruction) (found : Value)
  | operands (instr : Instruction) (left right : Value)
  | expected (kind : String) (found : Value)
  deriving DecidableEq

def Mismatch.text : Mismatch → String
  | .operand i v => i.text ++ " on " ++ v.kind
  | .operands i a b => i.text ++ " on " ++ a.kind ++ " and " ++ b.kind
  | .expected kind v => "expected " ++ kind ++ ", found " ++ v.kind

/-- A value that has no counterpart of the wanted kind. -/
inductive Misreading where
  | outOfRange (value : Double)
  | notInt (text : String)
  | notDouble (text : String)
  deriving DecidableEq

def Misreading.text : Misreading → String
  | .outOfRange d => d.text ++ " does not fit in an int"
  | .notInt s => Text.quoted s ++ " is not an int"
  | .notDouble s => Text.quoted s ++ " is not a double"

inductive Cause where
  | nilReference
  | stackUnderflow
  | unsetLocal (slot : Nat)
  | slotOutOfRange (slot : Nat)
  | typeMismatch (mismatch : Mismatch)
  | divisionByZero
  | badConversion (misreading : Misreading)
  | indexOutOfRange (index : Int64) (length : Nat)
  | freedObject (id : Nat)
  | unknownObject (id : Nat)
  | noSuchField (id : Nat) (field : String)
  | undefinedFunction (name : String)
  | callDepthExceeded (limit : Nat)
  | stepLimitExceeded (limit : Nat)
  | fellOffEnd
  | io (reason : String)
  | missingEntry (name : String)
  | noSession
  | verify (error : BalanceError)
  deriving DecidableEq

def Cause.text : Cause → String
  | .nilReference => "nil reference"
  | .stackUnderflow => "operand stack underflow"
  | .unsetLocal n => "read of unset local slot " ++ Decimal.natText n
  | .slotOutOfRange n => "local slot " ++ Decimal.natText n ++ " is out of range"
  | .typeMismatch m => "type mismatch: " ++ m.text
  | .divisionByZero => "division by zero"
  | .badConversion m => "invalid conversion: " ++ m.text
  | .indexOutOfRange i n =>
    "string index " ++ Decimal.intText i.toInt ++ " out of range for length " ++ Decimal.natText n
  | .freedObject id => "object " ++ Decimal.natText id ++ " has been deleted"
  | .unknownObject id => "object " ++ Decimal.natText id ++ " was never allocated"
  | .noSuchField id field => "object " ++ Decimal.natText id ++ " has no field '" ++ field ++ "'"
  | .undefinedFunction name => "undefined function '" ++ name ++ "'"
  | .callDepthExceeded n => "call depth limit exceeded (" ++ Decimal.natText n ++ ")"
  | .stepLimitExceeded n => "execution step limit exceeded (" ++ Decimal.natText n ++ ")"
  | .fellOffEnd => "frame ended without VRET"
  | .io reason => "i/o error: " ++ reason
  | .missingEntry name => "no entry function '" ++ name ++ "'"
  | .noSession => "no active session"
  | .verify e => "bytecode verification failed: " ++ e.message

/-- A cause with its place: the routine that was running, the index of its instruction, and the
routines that had been called, the first one first. -/
structure Fault where
  cause : Cause
  routine : String
  pc : Nat
  instr : Option Instruction
  calls : List String
  deriving DecidableEq

namespace Fault

def detached (cause : Cause) : Fault := ⟨cause, "", 0, none, []⟩

/-- Where the fault happened, unless the routine has no name. -/
def placeText (e : Fault) : String :=
  if e.routine.isEmpty then ""
  else
    let place := " (in " ++ e.routine ++ " at " ++ Decimal.natText e.pc
    match e.instr with
    | some i => place ++ ": " ++ i.text ++ ")"
    | none => place ++ ")"

/-- The calls that led to the fault, if there is more than one. -/
def callsText (e : Fault) : String :=
  if e.calls.length ≤ 1 then ""
  else
    "\n  call stack:" ++ String.join (e.calls.zipIdx.map fun (name, i) =>
      "\n    " ++ Decimal.natText i ++ ": " ++ name)

def message (e : Fault) : String :=
  "runtime error: " ++ e.cause.text ++ e.placeText ++ e.callsText

end Fault

end RecordLang

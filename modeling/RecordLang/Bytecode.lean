import RecordLang.Instruction
import RecordLang.Table

/-! # Bytecode

A routine is the code of one function; bytecode is the routines of a program.
-/

namespace RecordLang

structure Routine where
  name : String
  arity : Nat
  code : Array Instruction
  deriving DecidableEq

abbrev Bytecode := List Routine

/-- Local slots are numbered below this bound. -/
def maxLocals : Nat := 65536

/-- The number of parameters of each routine; of routines with one name the last counts. -/
def arities (routines : List Routine) : Table Nat :=
  routines.foldl (fun t r => t.put r.name r.arity) []

end RecordLang

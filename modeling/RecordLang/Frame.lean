import RecordLang.Fault

/-! # Frames

A frame is one call of a routine: its local slots, its operands, and the index of the instruction
that comes next.
-/

namespace RecordLang

/-- The operand that was pushed last comes first in `stack`. -/
structure Frame where
  routine : Routine
  locals : Array Value := #[]
  stack : List Value := []
  pc : Nat := 0
  deriving DecidableEq

namespace Frame

def name (f : Frame) : String := f.routine.name

def instr? (f : Frame) : Option Instruction := f.routine.code[f.pc]?

def append (f : Frame) (code : Array Instruction) : Frame :=
  { f with routine := { f.routine with code := f.routine.code ++ code } }

def push (f : Frame) (v : Value) : Frame := { f with stack := v :: f.stack }

def pop (f : Frame) : Except Cause (Value × Frame) :=
  match f.stack with
  | v :: s => .ok (v, { f with stack := s })
  | [] => .error .stackUnderflow

def load (f : Frame) (slot : Nat) : Except Cause Value :=
  match f.locals[slot]? with
  | some v => .ok v
  | none => .error (.unsetLocal slot)

/-- Sets a slot; the slots up to it that have no value yet become nil. -/
def store (f : Frame) (slot : Nat) (v : Value) : Except Cause Frame :=
  if slot < maxLocals then
    let missing := Array.replicate (slot + 1 - f.locals.size) Value.nil
    .ok { f with locals := (f.locals ++ missing).setIfInBounds slot v }
  else .error (.slotOutOfRange slot)

end Frame

end RecordLang

import RecordLang.Machine
import RecordLang.Value.Operation

/-! # Evaluations

The meaning of a tree is an evaluation: it works on the objects and the two streams, and it ends
with a result or a fault, or gets stuck, or does not end within the bound that is set on it.
-/

namespace RecordLang

structure World where
  heap : Heap := {}
  input : List UInt8 := []
  output : Output := {}

/-- How an evaluation ends. It gets stuck where a tree has no meaning, and it is unfinished when the
bound on its calls and loops is used up. -/
inductive Run (α : Type) where
  | done (result : α) (w : World)
  | failed (cause : Cause) (w : World)
  | stuck
  | unfinished

def Eval (α : Type) : Type := World → Run α

namespace Eval

variable {α β : Type}

protected def pure (a : α) : Eval α := fun w => .done a w

protected def bind (x : Eval α) (f : α → Eval β) : Eval β := fun w =>
  match x w with
  | .done a w => f a w
  | .failed c w => .failed c w
  | .stuck => .stuck
  | .unfinished => .unfinished

instance : Monad Eval where
  pure := Eval.pure
  bind := Eval.bind

def stuck : Eval α := fun _ => .stuck

def unfinished : Eval α := fun _ => .unfinished

def fail (c : Cause) : Eval α := fun w => .failed c w

def lift : Except Cause α → Eval α
  | .ok a => Eval.pure a
  | .error c => fail c

/-- What is there, or else no meaning. -/
def known : Option α → Eval α
  | some a => Eval.pure a
  | none => stuck

def truth : Value → Eval Bool
  | .bool b => Eval.pure b
  | .nil => fail .nilReference
  | _ => stuck

def alloc (fields : List String) : Eval Value := fun w =>
  let (id, heap) := w.heap.alloc fields
  .done (.object id) { w with heap }

def free (v : Value) : Eval Unit := do
  let id ← lift v.asObject
  fun w =>
    match w.heap.free id with
    | .ok heap => .done () { w with heap }
    | .error c => .failed c w

def getField (owner : Value) (field : String) : Eval Value := do
  let id ← lift owner.asObject
  fun w => lift (w.heap.getField id field) w

def setField (owner : Value) (field : String) (v : Value) : Eval Unit := do
  let id ← lift owner.asObject
  fun w =>
    match w.heap.setField id field v with
    | .ok heap => .done () { w with heap }
    | .error c => .failed c w

def write (v : Value) : Eval Unit := fun w =>
  match w.output.write v.text with
  | (none, output) => .done () { w with output }
  | (some reason, output) => .failed (.io reason) { w with output }

/-- Reads a line once the output is flushed. -/
def read : Eval Value := fun w =>
  match w.output.flush with
  | (some reason, output) => .failed (.io reason) { w with output }
  | (none, output) =>
    match readLine w.input with
    | (some line, input) => .done (.string line) { w with output, input }
    | (none, input) => .failed (.io notText) { w with output, input }

inductive Turn (σ α : Type) where
  | again (state : σ)
  | ended (result : α)

/-- Takes turns until the loop is over, at most as many as the bound says. -/
def repeatFor {σ : Type} (turn : σ → Eval (Turn σ α)) : Nat → σ → Eval α
  | 0, _ => unfinished
  | n + 1, s => do
    match ← turn s with
    | .again s => repeatFor turn n s
    | .ended a => return a

end Eval

end RecordLang

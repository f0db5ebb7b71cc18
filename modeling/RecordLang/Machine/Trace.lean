import RecordLang.Machine.Step
import RecordLang.Text.Pad

/-! # Traces

A trace has a line for each instruction that is taken up, with the operands as they were before it.
-/

namespace RecordLang.Machine

def traceLine? (m : Machine) : Option String :=
  match m.frames with
  | [] => none
  | f :: _ =>
    f.instr?.map fun i =>
      let operands := ", ".intercalate (f.stack.reverse.map Value.text)
      "[trace] " ++ f.name ++ "@" ++ Text.padZeros 4 (Decimal.natText f.pc) ++ " " ++
        Text.padRight 20 i.text ++ " stack=[" ++ operands ++ "] heap=" ++
        Decimal.natText m.heap.live

/-- The lines of a run, for at most the given number of steps. -/
def traceFor : Nat → Machine → List String
  | 0, _ => []
  | n + 1, m =>
    m.traceLine?.toList ++
      match m.step with
      | .running m => traceFor n m
      | .stopped _ _ => []

end RecordLang.Machine

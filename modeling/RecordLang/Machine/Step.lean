import RecordLang.Machine
import RecordLang.Value.Operation

/-! # One step of the machine

Each step carries out the next instruction of the innermost frame. A fault leaves the machine as it
was at that moment: operands that the instruction had taken are gone.
-/

namespace RecordLang

/-- What an instruction leads to. -/
inductive Outcome where
  | next (m : Machine)
  | finished (value : Value) (m : Machine)
  | failed (cause : Cause) (m : Machine)

/-- How a run comes to a stop. -/
inductive Exit where
  | paused
  | finished (value : Value)
  | faulted (fault : Fault)
  deriving DecidableEq

/-- What a step leads to. -/
inductive Progress where
  | running (m : Machine)
  | stopped (exit : Exit) (m : Machine)

namespace Machine

def withFrame (m : Machine) (f : Frame) : Machine := { m with frames := f :: m.frames.tail }

def goOn (m : Machine) (f : Frame) : Outcome := .next (m.withFrame f)

def fail (m : Machine) (f : Frame) (cause : Cause) : Outcome := .failed cause (m.withFrame f)

def attempt {α : Type} (m : Machine) (f : Frame) (r : Except Cause α) (k : α → Outcome) : Outcome :=
  match r with
  | .ok a => k a
  | .error e => m.fail f e

def operand (m : Machine) (f : Frame) (k : Value → Frame → Outcome) : Outcome :=
  m.attempt f f.pop fun (v, f) => k v f

/-- Puts what a computation yields on the stack of `f`. -/
def result (m : Machine) (f : Frame) (r : Except Cause Value) : Outcome :=
  m.attempt f r fun v => m.goOn (f.push v)

/-- Replaces the operand on top of the stack. -/
def unary (m : Machine) (f : Frame) (op : Value → Except Cause Value) : Outcome :=
  m.operand f fun v f => m.result f (op v)

/-- Calls a routine. Its arguments move one by one to its stack, so that the first of them ends up
on top. -/
def call (m : Machine) (f : Frame) (name : String) : Outcome :=
  match m.routines.get? name with
  | none => m.fail f (.undefinedFunction name)
  | some r =>
    match m.config.maxDepth.filter (· ≤ m.depth) with
    | some limit => m.fail f (.callDepthExceeded limit)
    | none =>
      if f.stack.length < r.arity then m.fail f .stackUnderflow
      else
        let caller := { f with stack := f.stack.drop r.arity }
        let callee : Frame := { routine := r, stack := (f.stack.take r.arity).reverse }
        .next { m with frames := callee :: caller :: m.frames.tail }

/-- Returns from the innermost frame to its caller, or ends the run. -/
def ret (m : Machine) (f : Frame) : Outcome :=
  m.operand f fun v _ =>
    match m.frames.tail with
    | [] => .finished v { m with frames := [] }
    | caller :: rest => .next { m with frames := caller.push v :: rest }

def write (m : Machine) (f : Frame) : Outcome :=
  m.operand f fun v f =>
    match m.output.write v.text with
    | (none, output) => { m with output }.goOn f
    | (some reason, output) => { m with output }.fail f (.io reason)

/-- Reads a line once the output is flushed. -/
def read (m : Machine) (f : Frame) : Outcome :=
  match m.output.flush with
  | (some reason, output) => { m with output }.fail f (.io reason)
  | (none, output) =>
    match readLine m.input with
    | (some line, input) => { m with output, input }.goOn (f.push (.string line))
    | (none, input) => { m with output, input }.fail f (.io notText)

/-- Carries out an instruction in the innermost frame `f`. -/
def exec (m : Machine) (f : Frame) : Instruction → Outcome
  | .push v => m.goOn (f.push v)
  | .pop => m.operand f fun _ f => m.goOn f
  | .dup => m.operand f fun v f => m.goOn ((f.push v).push v)
  | .swap => m.operand f fun b f => m.operand f fun a f => m.goOn ((f.push b).push a)
  | .load n => m.result f (f.load n)
  | .store n => m.operand f fun v f => m.attempt f (f.store n v) m.goOn
  | .binary op => m.operand f fun b f => m.operand f fun a f => m.result f (op.apply a b)
  | .neg => m.unary f Value.neg
  | .not => m.unary f Value.not
  | .jump t => m.goOn { f with pc := t }
  | .jumpIfFalse t => m.operand f fun v f =>
    match v with
    | .bool false => m.goOn { f with pc := t }
    | .bool true => m.goOn f
    | v => m.fail f ((Instruction.jumpIfFalse t).unfit v)
  | .call name => m.call f name
  | .ret => m.ret f
  | .write => m.write f
  | .read => m.read f
  | .length => m.unary f Value.length
  | .charAt => m.operand f fun v f => m.attempt f v.asString fun s =>
    m.operand f fun v f => m.attempt f v.asInt fun index => m.result f (Value.charAt s index)
  | .toInt => m.unary f Value.toInt
  | .toDouble => m.unary f Value.toDouble
  | .toText => m.unary f Value.toText
  | .alloc fields =>
    let (id, heap) := m.heap.alloc fields
    { m with heap }.goOn (f.push (.object id))
  | .free => m.operand f fun v f => m.attempt f v.asObject fun id =>
    m.attempt f (m.heap.free id) fun heap => { m with heap }.goOn f
  | .getField name => m.operand f fun v f => m.attempt f v.asObject fun id =>
    m.result f (m.heap.getField id name)
  | .setField name => m.operand f fun w f => m.operand f fun v f =>
    m.attempt f v.asObject fun id =>
      m.attempt f (m.heap.setField id name w) fun heap => { m with heap }.goOn f
  | .nop => m.goOn f

/-- Carries out an instruction that has been counted already, unless it is one too many. -/
def dispatch (m : Machine) (f : Frame) (i : Instruction) : Outcome :=
  match m.config.maxSteps.filter (· < m.steps) with
  | some limit => m.fail f (.stepLimitExceeded limit)
  | none => m.exec f i

def step (m : Machine) : Progress :=
  match m.frames with
  | [] => .stopped (.faulted (.detached .noSession)) m
  | f :: callers =>
    match f.instr? with
    | none =>
      if m.session && callers.isEmpty then .stopped .paused m
      else .stopped (.faulted (m.fault .fellOffEnd f.pc none)) m
    | some i =>
      let advanced := { f with pc := f.pc + 1 }
      let counted := { m with frames := advanced :: callers, steps := m.steps + 1 }
      match counted.dispatch advanced i with
      | .next m => .running m
      | .finished v m => .stopped (.finished v) m
      | .failed cause m => .stopped (.faulted (m.fault cause f.pc (some i))) m

/-- Runs until the machine stops, for at most the given number of steps. -/
def runFor : Nat → Machine → Option (Exit × Machine)
  | 0, _ => none
  | n + 1, m =>
    match m.step with
    | .running m => runFor n m
    | .stopped exit m => some (exit, m)

end Machine

end RecordLang

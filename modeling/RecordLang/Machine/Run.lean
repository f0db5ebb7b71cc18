import RecordLang.Machine.Step

/-! # Runs and sessions

A run calls a routine that has been loaded and goes on until it returns. A session is fed its code
piece by piece. Both take a bound on the steps and yield nothing if the bound is reached.
-/

namespace RecordLang

/-- Where a session stands after a piece of code. -/
inductive SessionState where
  | paused
  | ended (value : Value)
  deriving DecidableEq

def Exit.value : Exit → Except Fault Value
  | .finished v => .ok v
  | .faulted e => .error e
  | .paused => .error (.detached .fellOffEnd)

namespace Machine

/-- Adds routines; one of a name that is taken replaces the one before. If routines are checked, all
of the new ones have to be balanced against those that will be there, or none is added. -/
def load (m : Machine) (b : Bytecode) : Except Fault Machine :=
  let loaded := { m with routines := b.foldl (fun t r => t.put r.name r) m.routines }
  if m.config.verify then
    match b.forM (·.checkBalance (arities (m.routines.map Prod.snd ++ b))) with
    | .ok _ => .ok loaded
    | .error e => .error (.detached (.verify e))
  else .ok loaded

/-- Makes ready for a run of the routine `name`. -/
def enter (m : Machine) (name : String) : Except Fault Machine :=
  match m.routines.get? name with
  | none => .error (.detached (.missingEntry name))
  | some r => .ok { m with steps := 0, session := false, frames := [{ routine := r }] }

def flush (m : Machine) : Except Fault Unit × Machine :=
  match m.output.flush with
  | (none, output) => (.ok (), { m with output })
  | (some reason, output) => (.error (.detached (.io reason)), { m with output })

/-- Ends a run with a flush, whose failure counts more than what the run came to. -/
def conclude (m : Machine) (exit : Exit) : Except Fault Value × Machine :=
  match m.flush with
  | (.ok _, m) => (exit.value, m)
  | (.error e, m) => (.error e, m)

/-- Calls a routine without arguments that has been loaded. -/
def callEntry (fuel : Nat) (m : Machine) (name : String) : Option (Except Fault Value × Machine) :=
  match m.enter name with
  | .error e => some (.error e, m)
  | .ok m => (m.runFor fuel).map fun (exit, m) => m.conclude exit

/-- Loads bytecode and calls its main routine. -/
def run (fuel : Nat) (m : Machine) (b : Bytecode) : Option (Except Fault Value × Machine) :=
  match m.load b with
  | .error e => some (.error e, m)
  | .ok m => m.callEntry fuel "main"

/-- Begins a session in an empty frame. -/
def startSession (m : Machine) (name : String) : Machine :=
  let frame : Frame := { routine := { name, arity := 0, code := #[] } }
  { m with steps := 0, session := true, frames := [frame] }

/-- Settles a session whose code has run until it stopped. If the flush fails, the session stays as
the code left it. -/
def settle (m : Machine) (exit : Exit) : Except Fault SessionState × Machine :=
  match m.flush, exit with
  | (.error e, m), _ => (.error e, m)
  | (.ok _, m), .paused => (.ok .paused, m)
  | (.ok _, m), .finished v => (.ok (.ended v), { m with session := false })
  | (.ok _, m), .faulted e => (.error e, { m with session := false, frames := [] })

def extendSession (fuel : Nat) (m : Machine) (code : Array Instruction) :
    Option (Except Fault SessionState × Machine) :=
  match m.session, m.frames with
  | true, [f] =>
    let fed : Machine := { m with frames := [f.append code] }
    (fed.runFor fuel).map fun (exit, m) => m.settle exit
  | _, _ => some (.error (.detached .noSession), m)

end Machine

end RecordLang

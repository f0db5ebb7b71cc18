import RecordLang.Frame
import RecordLang.Heap
import RecordLang.Stream

/-! # The machine

The state in which code runs: the routines that have been loaded, the calls under way, the objects,
and the two streams.
-/

namespace RecordLang

/-- Limits on a run, none standing for no limit, and whether routines are checked when they are
loaded. -/
structure Config where
  maxSteps : Option Nat := none
  maxDepth : Option Nat := none
  verify : Bool := true
  deriving DecidableEq

/-- The innermost call comes first in `frames`. A session is a run whose first frame waits for more
code when it has none left. -/
structure Machine where
  config : Config := {}
  routines : Table Routine := []
  frames : List Frame := []
  heap : Heap := {}
  input : List UInt8 := []
  output : Output := {}
  steps : Nat := 0
  session : Bool := false

namespace Machine

def depth (m : Machine) : Nat := m.frames.length

/-- The names of the routines under way, the first one first. -/
def calls (m : Machine) : List String := (m.frames.map Frame.name).reverse

def fault (m : Machine) (cause : Cause) (pc : Nat) (instr : Option Instruction) : Fault where
  cause
  routine := (m.frames.head?.map Frame.name).getD ""
  pc
  instr
  calls := m.calls

end Machine

end RecordLang

import RecordLang.Instruction

/-! # Assembly with labels

Code is put together from directives. A jump may name a label before the label has its place; its
target is filled in at the end, when every label that a jump names must have one.
-/

namespace RecordLang

inductive CompileError where
  | unboundLabel (label : Nat)
  | labelRebound (label : Nat)
  | unknownLabel (label : Nat)
  | unknownVariable (name : String)
  | unknownRecord (name : String)
  | emptyTarget
  | emptyPath
  | endlessConstruction (record : String)
  | strayJump (index : Nat) (found : Option Instruction)
  deriving DecidableEq

def CompileError.message : CompileError → String
  | .unboundLabel n => "label " ++ Decimal.natText n ++ " is never bound"
  | .labelRebound n => "label " ++ Decimal.natText n ++ " is bound twice"
  | .unknownVariable name => "unknown variable '" ++ name ++ "'"
  | .unknownRecord name => "unknown record type '" ++ name ++ "'"
  | .unknownLabel n => "internal error: unknown label " ++ Decimal.natText n
  | .emptyTarget => "internal error: empty assignment path"
  | .emptyPath => "internal error: empty variable path"
  | .endlessConstruction name => "internal error: endless construction of '" ++ name ++ "'"
  | .strayJump n found =>
    let report :=
      match found with
      | some i => "Some(" ++ i.report ++ ")"
      | none => "None"
    "internal error: fixup at " ++ Decimal.natText n ++ " points at non-jump " ++ report

inductive Directive where
  | emit (instr : Instruction)
  | newLabel
  | bind (label : Nat)
  | jump (label : Nat)
  | jumpIfFalse (label : Nat)

/-- Code under construction: the instructions so far, the place of each label that has one, and the
jumps to labels by their index, in the order in which they were written. -/
structure Assembly where
  code : Array Instruction
  labels : Array (Option Nat)
  jumps : List (Nat × Nat)

namespace Assembly

def empty : Assembly := ⟨#[], #[], []⟩

/-- The target of a jump whose label has not been looked up. -/
def unresolved : Nat := UInt64.size - 1

def here (a : Assembly) : Nat := a.code.size

def emit (a : Assembly) (i : Instruction) : Assembly := { a with code := a.code.push i }

/-- Makes a label, which has the number of labels before it. -/
def newLabel (a : Assembly) : Assembly := { a with labels := a.labels.push none }

/-- Places a label before the next instruction. -/
def bind (a : Assembly) (label : Nat) : Except CompileError Assembly :=
  if h : label < a.labels.size then
    match a.labels[label] with
    | some _ => .error (.labelRebound label)
    | none => .ok { a with labels := a.labels.set label (some a.here) }
  else .error (.unknownLabel label)

/-- Writes a jump whose target is the place of a label; `jump` makes it from the target. -/
def jumpTo (a : Assembly) (jump : Nat → Instruction) (label : Nat) : Assembly :=
  { a.emit (jump unresolved) with jumps := a.jumps ++ [(a.here, label)] }

def apply (a : Assembly) : Directive → Except CompileError Assembly
  | .emit i => .ok (a.emit i)
  | .newLabel => .ok a.newLabel
  | .bind label => a.bind label
  | .jump label => .ok (a.jumpTo .jump label)
  | .jumpIfFalse label => .ok (a.jumpTo .jumpIfFalse label)

def place? (a : Assembly) (label : Nat) : Option Nat := a.labels[label]?.join

/-- The same jump to another target. -/
def retarget? (target : Nat) : Instruction → Option Instruction
  | .jump _ => some (.jump target)
  | .jumpIfFalse _ => some (.jumpIfFalse target)
  | _ => none

/-- Fills in the target of one jump. -/
def resolve (a : Assembly) (code : Array Instruction) (jump : Nat × Nat) :
    Except CompileError (Array Instruction) :=
  match a.place? jump.2 with
  | none => .error (.unboundLabel jump.2)
  | some target =>
    match code[jump.1]?.bind (retarget? target) with
    | some i => .ok (code.setIfInBounds jump.1 i)
    | none => .error (.strayJump jump.1 code[jump.1]?)

def finish (a : Assembly) : Except CompileError (Array Instruction) :=
  a.jumps.foldlM a.resolve a.code

end Assembly

/-- The code that a list of directives makes. -/
def assemble (directives : List Directive) : Except CompileError (Array Instruction) := do
  let a ← directives.foldlM Assembly.apply .empty
  a.finish

end RecordLang

import RecordLang.Compile.Expr

/-! # Code of statements

The code of a statement leaves the stack as it was. Each declaration gets a slot of its own, which
no later declaration of the same function shares; conditionals and loops jump to labels.
-/

namespace RecordLang

structure Generator where
  slots : Scopes Nat
  nextSlot : Nat
  nextLabel : Nat

namespace Generator

def declare (g : Generator) (name : String) : Generator :=
  { g with slots := g.slots.declare name g.nextSlot, nextSlot := g.nextSlot + 1 }

/-- Takes the next slot without giving it a name yet. -/
def takeSlot (g : Generator) : Generator := { g with nextSlot := g.nextSlot + 1 }

def takeLabels (g : Generator) (count : Nat) : Generator :=
  { g with nextLabel := g.nextLabel + count }

def push (g : Generator) : Generator := { g with slots := g.slots.push }

def pop (g : Generator) : Generator := { g with slots := g.slots.pop }

end Generator

/-- Directives for a statement, and the state behind it. -/
abbrev Generated := Except CompileError (List Directive × Generator)

def emits (code : Code) : List Directive := code.map .emit

/-- Code that stores the value on the stack in a variable or in a field reached from one. -/
def storeCode (slots : Scopes Nat) : List Ident → Except CompileError Code
  | [] => .error .emptyTarget
  | head :: fields => do
    let slot ← slotOf slots head
    match fields.getLast? with
    | none => return [.store slot]
    | some last => return loadPath slot fields.dropLast ++ [.swap, .setField last.text]

/-- The operators that test and step the variable of a counted loop. -/
def Direction.test : Direction → BinOp
  | .upto => .le
  | .downto => .ge

def Direction.step : Direction → BinOp
  | .upto => .add
  | .downto => .sub

mutual

def Stmt.generate (d : Declarations) (g : Generator) : Stmt → Generated
  | .declare b => do
    let init ← b.init.code d g.slots
    return (emits (init ++ [.store g.nextSlot]), g.declare b.name.text)
  | .assign target value => do
    let code ← value.code d g.slots
    let store ← storeCode g.slots target
    return (emits (code ++ store), g)
  | .cond branches => do
    let done := g.nextLabel
    let (body, g') ← branches.generate d done (g.takeLabels 1)
    return (.newLabel :: body ++ [.bind done], g')
  | .loop test body => do
    let top := g.nextLabel
    let done := g.nextLabel + 1
    let testCode ← test.code d g.slots
    let (inner, g') ← generateStmts d (g.takeLabels 2).push body
    return (.newLabel :: .newLabel :: .bind top :: emits testCode ++ .jumpIfFalse done :: inner ++
      [.jump top, .bind done], g'.pop)
  | .count var start direction stop body => do
    let test := g.nextLabel
    let done := g.nextLabel + 1
    let slot := g.nextSlot
    let startCode ← start.code d g.slots
    let stopCode ← stop.code d g.slots
    let inside := { (g.takeLabels 2).takeSlot with slots := g.slots.push.declare var.text slot }
    let (inner, g') ← generateStmts d inside body
    let enter := .newLabel :: .newLabel :: emits (startCode ++ [.store slot])
    let check := .bind test :: emits (.load slot :: stopCode ++ [.binary direction.test])
    let next := emits [.load slot, .push (.int 1), .binary direction.step, .store slot]
    return (enter ++ check ++ .jumpIfFalse done :: inner ++ next ++ [.jump test, .bind done],
      g'.pop)
  | .ret value _ =>
    match value with
    | some e => do
      let code ← e.code d g.slots
      return (emits (code ++ [.ret]), g)
    | none => .ok (emits [.push .nil, .ret], g)
  | .delete name => do
    let slot ← slotOf g.slots name
    return (emits [.load slot, .free], g)
  | .call fn args => do
    let code ← callCode d g.slots fn args
    return (emits (code ++ [.pop]), g)

/-- Statements in order, up to the first `return`. -/
def generateStmts (d : Declarations) (g : Generator) : List Stmt → Generated
  | [] => .ok ([], g)
  | s :: rest => do
    let (first, g') ← s.generate d g
    if s.isReturn then return (first, g')
    else
      let (more, g'') ← generateStmts d g' rest
      return (first ++ more, g'')

/-- The branches of a conditional; `done` is the label behind it. -/
def Branches.generate (d : Declarations) (done : Nat) (g : Generator) : Branches → Generated
  | .done => .ok ([], g)
  | .otherwise body => do
    let (inner, g') ← generateStmts d g.push body
    return (inner, g'.pop)
  | .branch test body rest => do
    let next := g.nextLabel
    let testCode ← test.code d g.slots
    let (inner, g') ← generateStmts d (g.takeLabels 1).push body
    let (more, g'') ← rest.generate d done g'.pop
    let leave :=
      match rest with
      | .done => []
      | _ => [.jump done]
    let tested := .newLabel :: emits testCode ++ .jumpIfFalse next :: inner
    return (tested ++ leave ++ .bind next :: more, g'')

end

end RecordLang

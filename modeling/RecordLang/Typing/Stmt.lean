import RecordLang.Typing.Expr

/-! # Checking statements

A declaration adds to the innermost scope; bodies are checked in scopes of their own. What follows a
`return` in the same row of statements is not checked.
-/

namespace RecordLang

/-- A type that variables, fields and parameters can have. -/
def Catalog.checkVariableType (c : Catalog) (note : TypeNote) : Except TypeError Unit :=
  match note.ty with
  | .void | .nil => violated note.pos (.notVariableType note.ty)
  | .record r => if c.hasRecord r then .ok () else violated note.pos (.undefinedType r)
  | _ => .ok ()

/-- The type of a declared variable or field: the one written, or else that of its first value. -/
def Binding.type (c : Catalog) (scopes : Scopes Meaning) (b : Binding) : Except TypeError Ty := do
  let found ← b.init.type c scopes
  match b.declared with
  | some note =>
    c.checkVariableType note
    if note.ty.accepts found then return note.ty
    else violated b.init.pos (.initType note.ty found)
  | none =>
    match found with
    | .nil => violated b.name.pos (.untypedNil b.name.text)
    | .void => violated b.init.pos (.voidInit b.name.text)
    | ty => return ty

/-- Checks that a test is a Boolean; `violation` names the kind of test. -/
def checkTest (c : Catalog) (scopes : Scopes Meaning) (violation : Ty → Violation) (test : Expr) :
    Except TypeError Unit := do
  let ty ← test.type c scopes
  if ty = .bool then return () else violated test.pos (violation ty)

def checkBound (c : Catalog) (scopes : Scopes Meaning) (which : Bound) (e : Expr) :
    Except TypeError Unit := do
  let ty ← e.type c scopes
  if ty = .int then return () else violated e.pos (.bound which ty)

def checkReturn (c : Catalog) (ret : Ty) (scopes : Scopes Meaning) (p : Position) :
    Option Expr → Except TypeError Unit
  | none => .ok ()
  | some value => do
    let ty ← value.type c scopes
    if ty = .nil || ty = ret then return () else violated p (.returnType ret ty)

def checkDelete (scopes : Scopes Meaning) (name : Ident) : Except TypeError Unit :=
  match scopes.find? name.text with
  | some (.variable ty) =>
    if ty.isRecord then .ok () else violated name.pos (.deleteNonRecord name.text ty)
  | _ => violated name.pos (.undefinedVariable name.text)

mutual

/-- Checks a statement of a function that returns `ret`; the result is the scopes behind it. -/
def Stmt.check (c : Catalog) (ret : Ty) (scopes : Scopes Meaning) :
    Stmt → Except TypeError (Scopes Meaning)
  | .declare b => do
    if scopes.declaredHere b.name.text then
      violated b.name.pos (.duplicateVariable b.name.text)
    let ty ← b.type c scopes
    return scopes.declare b.name.text (.variable ty)
  | .assign target value => do
    let expected ← c.targetType scopes target
    let found ← value.type c scopes
    if expected.accepts found then return scopes
    else violated value.pos (.assignment found expected)
  | .cond branches => do
    branches.check c ret scopes
    return scopes
  | .loop test body => do
    checkTest c scopes .loopCondition test
    checkStmts c ret scopes.push body
    return scopes
  | .count var start _ stop body => do
    checkBound c scopes .start start
    checkBound c scopes .stop stop
    checkStmts c ret (scopes.push.declare var.text (.variable .int)) body
    return scopes
  | .ret value p => do
    checkReturn c ret scopes p value
    return scopes
  | .delete name => do
    checkDelete scopes name
    return scopes
  | .call fn args => do
    let _ ← callType c scopes fn args
    return scopes

/-- Checks statements in the scopes they are in, up to the first `return`. -/
def checkStmts (c : Catalog) (ret : Ty) (scopes : Scopes Meaning) :
    List Stmt → Except TypeError Unit
  | [] => .ok ()
  | s :: rest => do
    let behind ← s.check c ret scopes
    if s.isReturn then return () else checkStmts c ret behind rest

def Branches.check (c : Catalog) (ret : Ty) (scopes : Scopes Meaning) :
    Branches → Except TypeError Unit
  | .done => .ok ()
  | .otherwise body => checkStmts c ret scopes.push body
  | .branch test body rest => do
    checkTest c scopes .condition test
    checkStmts c ret scopes.push body
    rest.check c ret scopes

end

end RecordLang

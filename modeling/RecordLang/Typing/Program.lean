import RecordLang.Typing.Construction
import RecordLang.Typing.Stmt

/-! # Checking programs

The names of records come first, then the signatures of functions, then the fields of records, so
that declarations may refer to each other in any order; the bodies of functions come last.
-/

namespace RecordLang

namespace Catalog

def addRecord (c : Catalog) (d : RecordDecl) : Except TypeError Catalog :=
  let refuse : Except TypeError Catalog := violated d.name.pos (.duplicateName d.name.text)
  if (Builtin.ofName? d.name.text).isSome then refuse
  else
    match c.declareRecord? d.name.text with
    | some c' => .ok c'
    | none => refuse

/-- Checks parameters in order; `earlier` holds those already read. -/
def paramTypes (c : Catalog) (earlier : Table Ty) : List Param → Except TypeError (Table Ty)
  | [] => .ok earlier
  | p :: rest => do
    c.checkVariableType p.note
    if earlier.has p.name.text then violated p.name.pos (.duplicateParam p.name.text)
    c.paramTypes (earlier ++ [(p.name.text, p.note.ty)]) rest

def signature (c : Catalog) (f : FunDecl) : Except TypeError Signature := do
  if f.ret.ty ≠ .void then c.checkVariableType f.ret
  let params ← c.paramTypes [] f.params
  return ⟨params, f.ret.ty⟩

def addFun (c : Catalog) (f : FunDecl) : Except TypeError Catalog := do
  let sig ← c.signature f
  let refuse : Except TypeError Catalog := violated f.name.pos (.duplicateName f.name.text)
  if (Builtin.ofName? f.name.text).isSome then refuse
  else
    match c.declareFun? f.name.text sig with
    | some c' => .ok c'
    | none => refuse

/-- What the names of declarations and built-in functions stand for. -/
def globals (c : Catalog) : Scopes Meaning :=
  [Builtin.all.map (fun b => (b.name, Meaning.function)) ++
    c.funs.map (fun (name, _) => (name, Meaning.function)) ++
    c.records.map (fun (name, _) => (name, Meaning.type))]

/-- The types of fields in order; `earlier` holds those already read. -/
def fieldTypes (c : Catalog) (record : String) (earlier : Table Ty) :
    List Binding → Except TypeError (Table Ty)
  | [] => .ok earlier
  | b :: rest => do
    if earlier.has b.name.text then violated b.name.pos (.duplicateField b.name.text record)
    let ty ← b.type c c.globals
    c.fieldTypes record (earlier ++ [(b.name.text, ty)]) rest

def addFields (c : Catalog) (d : RecordDecl) : Except TypeError Catalog := do
  let fields ← c.fieldTypes d.name.text [] d.fields
  return c.setFields d.name.text fields

end Catalog

def FunDecl.scopes (f : FunDecl) (c : Catalog) : Scopes Meaning :=
  f.params.foldl (fun s p => s.declare p.name.text (.variable p.note.ty)) c.globals.push

def FunDecl.check (c : Catalog) (f : FunDecl) : Except TypeError Unit :=
  checkStmts c f.ret.ty (f.scopes c) f.body

namespace Program

def catalog (p : Program) : Except TypeError Catalog := do
  let c ← p.records.foldlM Catalog.addRecord .empty
  let c ← p.funs.foldlM Catalog.addFun c
  let c ← p.records.foldlM Catalog.addFields c
  p.records.forM p.checkConstruction
  return c

/-- A program starts with its function `main`. -/
def checkMain (p : Program) (c : Catalog) : Except TypeError Unit :=
  match c.fun? "main" with
  | none => .error ⟨none, .missingMain⟩
  | some sig =>
    if sig.params.isEmpty && sig.ret = .void then .ok ()
    else
      .error ⟨(p.funs.find? (·.name.text = "main")).map (·.name.pos), .mainSignature⟩

/-- Checks a whole program; the result is the catalog of its declarations. -/
def check (p : Program) : Except TypeError Catalog := do
  let c ← p.catalog
  p.checkMain c
  p.funs.forM (FunDecl.check c)
  return c

end Program

end RecordLang

import RecordLang.Catalog
import RecordLang.Scopes
import RecordLang.Typing.Error

/-! # Types of expressions

The type of an expression is found from its parts, left to right; the first violation is reported.
-/

namespace RecordLang

/-- What a name in scope stands for. -/
inductive Meaning where
  | type
  | function
  | variable (ty : Ty)
  deriving DecidableEq

/-- What an argument has to be. -/
inductive Demand where
  | any
  | exactly (fn : String) (ty : Ty)
  | param (fn name : String) (ty : Ty)

def Demand.violation? (found : Ty) : Demand → Option Violation
  | .any => none
  | .exactly fn ty => if found = ty then none else some (.builtinArgument fn ty found)
  | .param fn name ty => if ty.accepts found then none else some (.argument name fn ty found)

namespace Builtin

def demands (b : Builtin) : List Demand :=
  b.params.map fun
    | some ty => .exactly b.name ty
    | none => .any

end Builtin

/-- What a function demands of its arguments and the type it returns. -/
structure Callee where
  demands : List Demand
  ret : Ty

namespace Catalog

def callee? (c : Catalog) (name : String) : Option Callee :=
  match Builtin.ofName? name with
  | some b => some ⟨b.demands, b.ret⟩
  | none => (c.fun? name).map fun sig => ⟨sig.params.map fun (p, ty) => .param name p ty, sig.ret⟩

/-- Walks from a value of type `ty` through fields; `owner` is the name read last. -/
def walkType (c : Catalog) (ty : Ty) (owner : Ident) : List Ident → Except TypeError Ty
  | [] => .ok ty
  | field :: rest =>
    match ty with
    | .record r =>
      match c.fieldType? r field.text with
      | some next => c.walkType next field rest
      | none => violated field.pos (.noField r field.text)
    | other => violated field.pos (.notRecord owner.text other)

/-- The type of a variable, or of a field reached from it, read as a value. -/
def pathType (c : Catalog) (scopes : Scopes Meaning) : List Ident → Except TypeError Ty
  | [] => .error ⟨none, .emptyPath⟩
  | head :: fields =>
    match scopes.find? head.text with
    | some (.variable ty) => c.walkType ty head fields
    | some _ => violated head.pos (.notVariable head.text)
    | none => violated head.pos (.undefinedVariable head.text)

def targetType (c : Catalog) (scopes : Scopes Meaning) (path : List Ident) :
    Except TypeError Ty :=
  match path with
  | [] => .error ⟨none, .emptyPath⟩
  | head :: _ =>
    match scopes.find? head.text with
    | some .type => violated head.pos (.assignToType head.text)
    | some .function => violated head.pos (.assignToFunction head.text)
    | _ => c.pathType scopes path

end Catalog

def Literal.type : Literal → Ty
  | .int _ => .int
  | .double _ => .double
  | .bool _ => .bool
  | .char _ => .char
  | .string _ => .string
  | .nil => .nil

/-- The type of the result of an operator, if it applies to operands of these types. -/
def BinOp.type? (op : BinOp) (left right : Ty) : Option Ty :=
  match op with
  | .add =>
    match left, right with
    | .string, .string | .string, .char | .char, .string => some .string
    | _, _ => if left = right && left.isNumeric then some left else none
  | .sub | .mul | .div => if left = right && left.isNumeric then some left else none
  | .mod => if left = .int && right = .int then some .int else none
  | .and | .or => if left = .bool && right = .bool then some .bool else none
  | .eq | .ne => if left = .nil || right = .nil || left = right then some .bool else none
  | .lt | .le | .gt | .ge => if left = right && left.isOrdered then some .bool else none

/-- The type of a chain whose operands have been joined, negated or not. -/
def negatedType (negated : Bool) (p : Position) (ty : Ty) : Except TypeError Ty :=
  if negated && ty ≠ .bool then violated p (.notOperand ty) else .ok ty

mutual

def Expr.type (c : Catalog) (scopes : Scopes Meaning) : Expr → Except TypeError Ty
  | .single negated first p => do
    let ty ← first.type c scopes
    negatedType negated p ty
  | .chain negated first op opPos rest p => do
    let left ← first.type c scopes
    let right ← rest.type c scopes
    match op.type? left right with
    | some ty => negatedType negated p ty
    | none => violated opPos (.operands op left right)

def Term.type (c : Catalog) (scopes : Scopes Meaning) : Term → Except TypeError Ty
  | .literal v _ => .ok v.type
  | .construct r =>
    if c.hasRecord r.text then .ok (.record r.text) else violated r.pos (.undefinedType r.text)
  | .path names => c.pathType scopes names
  | .call fn args =>
    match c.callee? fn.text with
    | none => violated fn.pos (.undefinedFunction fn.text)
    | some callee => do
      if args.length ≠ callee.demands.length then
        violated fn.pos (.argumentCount fn.text callee.demands.length args.length)
      checkArgs c scopes args callee.demands
      return callee.ret
  | .neg operand p => do
    let ty ← operand.type c scopes
    if ty.isNumeric then return ty else violated p (.negOperand ty)
  | .paren inner => inner.type c scopes

def checkArgs (c : Catalog) (scopes : Scopes Meaning) :
    List Expr → List Demand → Except TypeError Unit
  | arg :: args, demand :: demands => do
    let found ← arg.type c scopes
    match demand.violation? found with
    | some v => violated arg.pos v
    | none => checkArgs c scopes args demands
  | _, _ => .ok ()

end

def callType (c : Catalog) (scopes : Scopes Meaning) (fn : Ident) (args : List Expr) :
    Except TypeError Ty :=
  Term.type c scopes (.call fn args)

end RecordLang

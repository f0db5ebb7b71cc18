import RecordLang.Decimal.Shortest
import RecordLang.Outline
import RecordLang.Program
import RecordLang.Text.Quoted

/-! # Outlines of programs

Every part of a program tree with its position, for reading.
-/

namespace RecordLang

def nameOutline (s : String) : Outline := .leaf (Text.quoted s)

def flagOutline (b : Bool) : Outline := .leaf (if b then "true" else "false")

def Position.outline (p : Position) : Outline :=
  let count (n : Nat) : Outline := .leaf (Decimal.natText n)
  .fields "Span" [("line", count p.line), ("col", count p.column)]

def Ty.outline : Ty → Outline
  | .int => .leaf "Int"
  | .double => .leaf "Double"
  | .bool => .leaf "Bool"
  | .char => .leaf "Char"
  | .string => .leaf "String"
  | .void => .leaf "Void"
  | .nil => .leaf "Nil"
  | .record name => .node "Record" [nameOutline name]

def Ident.outline (n : Ident) : Outline :=
  .fields "Ident" [("name", nameOutline n.text), ("span", n.pos.outline)]

def TypeNote.outline (n : TypeNote) : Outline :=
  .fields "TypeAnn" [("ty", n.ty.outline), ("span", n.pos.outline)]

def Literal.outline : Literal → Outline
  | .int n => .node "Int" [.leaf (Decimal.intText n.toInt)]
  | .double d => .node "Double" [.leaf d.text]
  | .bool b => .node "Bool" [flagOutline b]
  | .char c => .node "Char" [.leaf (Text.quotedChar c)]
  | .string s => .node "String" [nameOutline s]
  | .nil => .leaf "Nil"

def BinOp.outline : BinOp → Outline
  | .add => .leaf "Add"
  | .sub => .leaf "Sub"
  | .mul => .leaf "Mul"
  | .div => .leaf "Div"
  | .mod => .leaf "Mod"
  | .and => .leaf "And"
  | .or => .leaf "Or"
  | .eq => .leaf "Eq"
  | .ne => .leaf "NotEq"
  | .lt => .leaf "Lt"
  | .le => .leaf "LtEq"
  | .gt => .leaf "Gt"
  | .ge => .leaf "GtEq"

def identsOutline (names : List Ident) : Outline := .row (names.map Ident.outline)

/-- A call, as a term and as a statement. -/
def callOutline (fn : Ident) (args : List Outline) : Outline :=
  .node "Call" [.fields "CallExpr" [("name", fn.outline), ("args", .row args)]]

def chainOutline (negated : Bool) (first : Outline) (rest : Option Outline) (p : Position) :
    Outline :=
  .fields "Expr" [("negated", flagOutline negated), ("first", first), ("rest", .optional rest),
    ("span", p.outline)]

mutual

def Expr.outline : Expr → Outline
  | .single negated first p => chainOutline negated first.outline none p
  | .chain negated first op opPos rest p =>
    let operation := .fields "Operation"
      [("op", op.outline), ("span", opPos.outline), ("rhs", rest.outline)]
    chainOutline negated first.outline (some operation) p

def Term.outline : Term → Outline
  | .literal v p => .node "Simple" [.node "Literal" [v.outline, p.outline]]
  | .construct r => .node "Simple" [.node "New" [r.outline]]
  | .path names => .node "Simple" [.node "Path" [identsOutline names]]
  | .call fn args => .node "Simple" [callOutline fn (argOutlines args)]
  | .neg e p => .node "Simple" [.node "Neg" [e.outline, p.outline]]
  | .paren e => .node "Paren" [e.outline]

def argOutlines : List Expr → List Outline
  | [] => []
  | e :: es => e.outline :: argOutlines es

end

def Binding.outline (b : Binding) : Outline :=
  .fields "VarDecl" [("name", b.name.outline),
    ("declared", .optional (b.declared.map TypeNote.outline)), ("init", b.init.outline)]

def Direction.outline : Direction → Outline
  | .upto => .leaf "Upto"
  | .downto => .leaf "Downto"

mutual

def Stmt.outline : Stmt → Outline
  | .declare b => .node "VarDecl" [b.outline]
  | .assign target value => .node "Assign" [.fields "AssignStmt"
      [("path", identsOutline target), ("expr", value.outline)]]
  | .cond branches => .node "Cond" [.fields "CondStmt"
      [("branches", .row branches.testOutlines),
        ("otherwise", .optional branches.otherwiseOutline)]]
  | .loop test body => .node "While" [.fields "WhileStmt"
      [("cond", test.outline), ("body", .row (bodyOutlines body))]]
  | .count var start direction stop body => .node "For" [.fields "ForStmt"
      [("var", var.outline), ("start", start.outline), ("direction", direction.outline),
        ("end", stop.outline), ("body", .row (bodyOutlines body))]]
  | .ret value p => .node "Return" [.fields "ReturnStmt"
      [("expr", .optional (value.map Expr.outline)), ("span", p.outline)]]
  | .delete name => .node "Delete" [name.outline]
  | .call fn args => callOutline fn (argOutlines args)

def Branches.testOutlines : Branches → List Outline
  | .done => []
  | .otherwise _ => []
  | .branch test body rest =>
    .fields "Branch" [("cond", test.outline), ("body", .row (bodyOutlines body))] ::
      rest.testOutlines

def Branches.otherwiseOutline : Branches → Option Outline
  | .done => none
  | .otherwise body => some (.row (bodyOutlines body))
  | .branch _ _ rest => rest.otherwiseOutline

def bodyOutlines : List Stmt → List Outline
  | [] => []
  | s :: body => s.outline :: bodyOutlines body

end

def RecordDecl.outline (r : RecordDecl) : Outline :=
  .fields "TypeDecl" [("name", r.name.outline), ("fields", .row (r.fields.map Binding.outline))]

def Param.outline (p : Param) : Outline :=
  .fields "Param" [("ty", p.note.outline), ("name", p.name.outline)]

def FunDecl.outline (f : FunDecl) : Outline :=
  .fields "FunDecl" [("ret", f.ret.outline), ("name", f.name.outline),
    ("params", .row (f.params.map Param.outline)), ("body", .row (bodyOutlines f.body))]

def Program.outline (p : Program) : Outline :=
  .fields "Program" [("types", .row (p.records.map RecordDecl.outline)),
    ("funs", .row (p.funs.map FunDecl.outline))]

end RecordLang

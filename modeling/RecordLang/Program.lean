import RecordLang.Double
import RecordLang.Position
import RecordLang.Ty

/-! # Program trees

A program is a list of record declarations and a list of functions. Operands form chains that nest
to the right and know no precedence; a chain may be negated as a whole.
-/

namespace RecordLang

/-- A name where it is written. -/
structure Ident where
  text : String
  pos : Position
  deriving DecidableEq

structure TypeNote where
  ty : Ty
  pos : Position
  deriving DecidableEq

inductive Literal where
  | int (value : Int64)
  | double (value : Double)
  | bool (value : Bool)
  | char (value : Char)
  | string (value : String)
  | nil
  deriving DecidableEq

inductive BinOp where
  | add | sub | mul | div | mod
  | and | or
  | eq | ne | lt | le | gt | ge
  deriving DecidableEq

def BinOp.text : BinOp → String
  | .add => "+"
  | .sub => "-"
  | .mul => "*"
  | .div => "/"
  | .mod => "%"
  | .and => "and"
  | .or => "or"
  | .eq => "=="
  | .ne => "!="
  | .lt => "<"
  | .le => "<="
  | .gt => ">"
  | .ge => ">="

mutual

/-- A chain of operands: a single operand, or an operand joined to the chain behind it. -/
inductive Expr where
  | single (negated : Bool) (first : Term) (pos : Position)
  | chain (negated : Bool) (first : Term) (op : BinOp) (opPos : Position) (rest : Expr)
    (pos : Position)

inductive Term where
  | literal (value : Literal) (pos : Position)
  | construct (record : Ident)
  | path (names : List Ident)
  | call (fn : Ident) (args : List Expr)
  | neg (operand : Expr) (pos : Position)
  | paren (inner : Expr)

end

def Expr.pos : Expr → Position
  | .single _ _ p => p
  | .chain _ _ _ _ _ p => p

/-- A variable or field with its first value; the type may be left to that value. -/
structure Binding where
  name : Ident
  declared : Option TypeNote
  init : Expr

inductive Direction where
  | upto
  | downto
  deriving DecidableEq

mutual

inductive Stmt where
  | declare (binding : Binding)
  | assign (target : List Ident) (value : Expr)
  | cond (branches : Branches)
  | loop (test : Expr) (body : List Stmt)
  | count (var : Ident) (start : Expr) (direction : Direction) (stop : Expr) (body : List Stmt)
  | ret (value : Option Expr) (pos : Position)
  | delete (name : Ident)
  | call (fn : Ident) (args : List Expr)

/-- The tests of a conditional in order, each with its body, and what is done if none holds. -/
inductive Branches where
  | done
  | otherwise (body : List Stmt)
  | branch (test : Expr) (body : List Stmt) (rest : Branches)

end

def Stmt.isReturn : Stmt → Bool
  | .ret _ _ => true
  | _ => false

structure RecordDecl where
  name : Ident
  fields : List Binding

structure Param where
  note : TypeNote
  name : Ident
  deriving DecidableEq

structure FunDecl where
  ret : TypeNote
  name : Ident
  params : List Param
  body : List Stmt

structure Program where
  records : List RecordDecl
  funs : List FunDecl

end RecordLang

import RecordLang.Builtin
import RecordLang.Table

/-! # The declarations of a program

A catalog holds the fields of each record and the signature of each function. Records and functions
share their names.
-/

namespace RecordLang

/-- The parameters of a function in order, and the type it returns. -/
structure Signature where
  params : Table Ty
  ret : Ty
  deriving DecidableEq

structure Catalog where
  records : Table (Table Ty)
  funs : Table Signature
  deriving DecidableEq

namespace Catalog

def empty : Catalog := ⟨[], []⟩

def hasRecord (c : Catalog) (name : String) : Bool := c.records.has name

def isDeclared (c : Catalog) (name : String) : Bool := c.records.has name || c.funs.has name

def fields? (c : Catalog) (record : String) : Option (Table Ty) := c.records.get? record

def fieldType? (c : Catalog) (record field : String) : Option Ty :=
  (c.fields? record).bind (·.get? field)

def fun? (c : Catalog) (name : String) : Option Signature := c.funs.get? name

/-- Adds a record without fields, unless its name is taken. -/
def declareRecord? (c : Catalog) (name : String) : Option Catalog :=
  if c.isDeclared name then none else some { c with records := c.records.put name [] }

def setFields (c : Catalog) (name : String) (fields : Table Ty) : Catalog :=
  { c with records := c.records.put name fields }

def declareFun? (c : Catalog) (name : String) (sig : Signature) : Option Catalog :=
  if c.isDeclared name then none else some { c with funs := c.funs.put name sig }

end Catalog

end RecordLang

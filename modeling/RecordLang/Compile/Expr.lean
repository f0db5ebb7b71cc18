import RecordLang.Assembly
import RecordLang.Catalog
import RecordLang.Scopes

/-! # Code of expressions

The code of an expression leaves its value on the stack. Making a record allocates it and then runs
the initializers of its fields in place, each with the record below it on the stack.
-/

namespace RecordLang

/-- The slots of variables, the code of arguments and operands, and what follows them, are lists of
instructions; making a record takes its code from elsewhere. -/
abbrev Code := List Instruction

/-- The value of a literal; a character is a string of length one. -/
def Literal.value : Literal → Value
  | .int n => .int n
  | .double d => .double d
  | .bool b => .bool b
  | .char c => .string c.toString
  | .string s => .string s
  | .nil => .nil

def Builtin.code : Builtin → Code
  | .print => [.write, .push .nil]
  | .read => [.read]
  | .length => [.length]
  | .get => [.charAt]
  | .stoi | .dtoi => [.toInt]
  | .stod | .itod => [.toDouble]
  | .itos | .dtos => [.toText]

/-- The instructions that apply a function to the arguments on the stack. -/
def applyCode (fn : String) : Code :=
  match Builtin.ofName? fn with
  | some b => b.code
  | none => [.call fn]

def slotOf (slots : Scopes Nat) (name : Ident) : Except CompileError Nat :=
  match slots.find? name.text with
  | some slot => .ok slot
  | none => .error (.unknownVariable name.text)

/-- Code that loads a variable and walks through fields. -/
def loadPath (slot : Nat) (fields : List Ident) : Code :=
  .load slot :: fields.map fun f => .getField f.text

def pathCode (slots : Scopes Nat) : List Ident → Except CompileError Code
  | [] => .error .emptyPath
  | head :: fields => do
    let slot ← slotOf slots head
    return loadPath slot fields

/-- The code behind a chain that may be negated. -/
def negation (negated : Bool) : Code := if negated then [.not] else []

mutual

/-- The code of an expression, given the code that makes each record. -/
def Expr.codeWith (construct : Ident → Except CompileError Code) (slots : Scopes Nat) :
    Expr → Except CompileError Code
  | .single negated first _ => do
    let left ← first.codeWith construct slots
    return left ++ negation negated
  | .chain negated first op _ rest _ => do
    let left ← first.codeWith construct slots
    let right ← rest.codeWith construct slots
    return left ++ right ++ .binary op :: negation negated

def Term.codeWith (construct : Ident → Except CompileError Code) (slots : Scopes Nat) :
    Term → Except CompileError Code
  | .literal v _ => .ok [.push v.value]
  | .construct r => construct r
  | .path names => pathCode slots names
  | .call fn args => do
    let code ← argsCodeWith construct slots args
    return code ++ applyCode fn.text
  | .neg operand _ => do
    let code ← operand.codeWith construct slots
    return code ++ [.neg]
  | .paren inner => inner.codeWith construct slots

def argsCodeWith (construct : Ident → Except CompileError Code) (slots : Scopes Nat) :
    List Expr → Except CompileError Code
  | [] => .ok []
  | arg :: args => do
    let first ← arg.codeWith construct slots
    let more ← argsCodeWith construct slots args
    return first ++ more

end

/-- What the code of expressions depends on: the declarations of the program and their catalog. -/
structure Declarations where
  catalog : Catalog
  records : List RecordDecl

namespace Declarations

/-- The declaration of a record; of declarations with one name the last counts. -/
def record? (d : Declarations) (name : String) : Option RecordDecl :=
  d.records.reverse.find? (·.name.text = name)

/-- Code that stores the first values of fields into the record on the stack. -/
def fieldsCode (construct : Ident → Except CompileError Code) (slots : Scopes Nat) :
    List Binding → Except CompileError Code
  | [] => .ok []
  | field :: rest => do
    let init ← field.init.codeWith construct slots
    let more ← fieldsCode construct slots rest
    return .dup :: init ++ .setField field.name.text :: more

/-- Code that makes a record. Initializers make further records inside it, at most `nesting` deep,
which suffices for as many records as there are if none makes itself. -/
def constructCode (d : Declarations) (slots : Scopes Nat) (nesting : Nat) (name : Ident) :
    Except CompileError Code :=
  match d.catalog.fields? name.text, d.record? name.text with
  | some fields, some decl =>
    match nesting with
    | 0 => .error (.endlessConstruction name.text)
    | nesting + 1 => do
      let code ← fieldsCode (d.constructCode slots nesting) slots decl.fields
      return .alloc fields.names :: code
  | _, _ => .error (.unknownRecord name.text)

end Declarations

def Expr.code (d : Declarations) (slots : Scopes Nat) (e : Expr) : Except CompileError Code :=
  e.codeWith (d.constructCode slots d.records.length) slots

def callCode (d : Declarations) (slots : Scopes Nat) (fn : Ident) (args : List Expr) :
    Except CompileError Code :=
  Term.codeWith (d.constructCode slots d.records.length) slots (.call fn args)

end RecordLang

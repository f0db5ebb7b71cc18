import RecordLang.Program
import RecordLang.Token

/-! # Tokens as program trees

Reading goes from left to right and looks at most one token ahead of the current one. Each reader
takes at least one token, which is what makes reading end, and the first token that does not fit
is reported together with what was expected in its place.
-/

namespace RecordLang

inductive Wanted where
  | token (token : Token)
  | name (role : String)
  | declaration
  | type
  | statement
  | direction
  | expression
  deriving DecidableEq

def Wanted.text : Wanted → String
  | .token t => "'" ++ t.text ++ "'"
  | .name role => role
  | .declaration => "'type' or 'fun'"
  | .type => "a type"
  | .statement => "a statement"
  | .direction => "'upto' or 'downto'"
  | .expression => "an expression"

/-- A place where something else was expected, with `index` tokens before it; nothing is found
behind the last token. -/
structure ParseError where
  pos : Position
  wanted : Wanted
  found : Option Token
  index : Nat
  deriving DecidableEq

namespace ParseError

def text (e : ParseError) : String :=
  let found :=
    match e.found with
    | some t => "'" ++ t.text ++ "'"
    | none => "end-of-file"
  "expected " ++ e.wanted.text ++ ", found " ++ found

def message (e : ParseError) : String := e.pos.remark e.text

end ParseError

/-- The tokens still to be read, the place of the token read last, and how many have been read. -/
structure Cursor where
  rest : List Lexeme
  last : Position
  read : Nat

/-- A value and the cursor behind its tokens, of which there is at least one. -/
structure Parsed (α : Type) (c : Cursor) where
  value : α
  next : Cursor
  shorter : next.rest.length < c.rest.length

abbrev Parse (α : Type) (c : Cursor) := Except ParseError (Parsed α c)

namespace Cursor

/-- The cursor before a row of tokens, of which comments do not count. -/
def start (tokens : List Lexeme) : Cursor := ⟨dropComments tokens, .start, 0⟩

def peek (c : Cursor) : Option Token := c.rest.head?.map Lexeme.token

def peekSecond (c : Cursor) : Option Token := c.rest.tail.head?.map Lexeme.token

/-- The place of the next token, or of the last one where none is left. -/
def pos (c : Cursor) : Position :=
  match c.rest with
  | l :: _ => l.pos
  | [] => c.last

def refuse {α : Type} (c : Cursor) (wanted : Wanted) : Except ParseError α :=
  .error ⟨c.pos, wanted, c.peek, c.read⟩

/-- Takes the next token if `f` makes something of it. -/
def take {α : Type} (c : Cursor) (wanted : Wanted) (f : Token → Option α) : Parse α c :=
  match h : c.rest with
  | [] => c.refuse wanted
  | l :: rest =>
    match f l.token with
    | some a => .ok ⟨a, ⟨rest, l.pos, c.read + 1⟩, by simp [h]⟩
    | none => c.refuse wanted

/-- Takes the token `t`; the value is its place. -/
def expect (c : Cursor) (t : Token) : Parse Position c :=
  c.take (.token t) fun u => if u = t then some c.pos else none

def ident (c : Cursor) (role : String) : Parse Ident c :=
  c.take (.name role) fun
    | .name s => some ⟨s, c.pos⟩
    | _ => none

/-- Takes the name of a type that variables can have. -/
def typeNote (c : Cursor) : Parse TypeNote c :=
  c.take .type fun
    | .keyword .intType => some ⟨.int, c.pos⟩
    | .keyword .doubleType => some ⟨.double, c.pos⟩
    | .keyword .boolType => some ⟨.bool, c.pos⟩
    | .keyword .charType => some ⟨.char, c.pos⟩
    | .keyword .stringType => some ⟨.string, c.pos⟩
    | .name s => some ⟨.record s, c.pos⟩
    | _ => none

/-- Takes the type that a function returns. -/
def returnNote (c : Cursor) : Parse TypeNote c :=
  if c.peek = some (.keyword .voidType) then
    c.take .type fun _ => some ⟨.void, c.pos⟩
  else c.typeNote

/-- Takes a name, then a field name behind each point that follows. -/
def path (c : Cursor) (role : String) : Parse (List Ident) c := do
  let ⟨name, c₁, h₁⟩ ← c.ident role
  if c₁.peek = some (.symbol .dot) then
    let ⟨_, c₂, h₂⟩ ← c₁.expect (.symbol .dot)
    let ⟨names, c₃, h₃⟩ ← c₂.path "field name"
    return ⟨name :: names, c₃, by omega⟩
  else return ⟨[name], c₁, h₁⟩
termination_by c.rest.length

def literal? : Token → Option Literal
  | .int n => some (.int n)
  | .double d => some (.double d)
  | .bool b => some (.bool b)
  | .char x => some (.char x)
  | .string s => some (.string s)
  | .nil => some .nil
  | _ => none

def binOp? : Token → Option BinOp
  | .symbol .plus => some .add
  | .symbol .minus => some .sub
  | .symbol .star => some .mul
  | .symbol .slash => some .div
  | .symbol .percent => some .mod
  | .keyword .andWord => some .and
  | .keyword .orWord => some .or
  | .symbol .equal => some .eq
  | .symbol .notEqual => some .ne
  | .symbol .less => some .lt
  | .symbol .lessEq => some .le
  | .symbol .greater => some .gt
  | .symbol .greaterEq => some .ge
  | _ => none

mutual

/-- An expression. A leading `not` takes the whole chain behind it as its operand. -/
def expr (c : Cursor) : Parse Expr c := do
  if c.peek = some (.keyword .notWord) then
    let ⟨p, c₁, h₁⟩ ← c.expect (.keyword .notWord)
    let ⟨inner, c₂, h₂⟩ ← c₁.expr
    return ⟨.single true (.paren inner) p, c₂, by omega⟩
  else
    let ⟨first, c₁, h₁⟩ ← c.term
    match c₁.peek.bind binOp? with
    | some op =>
      let ⟨p, c₂, h₂⟩ ← c₁.take .expression fun _ => some c₁.pos
      let ⟨rest, c₃, h₃⟩ ← c₂.expr
      return ⟨.chain false first op p rest c.pos, c₃, by omega⟩
    | none => return ⟨.single false first c.pos, c₁, h₁⟩
termination_by 4 * c.rest.length + 2

/-- An operand of a chain. -/
def term (c : Cursor) : Parse Term c := do
  match c.peek with
  | some (.symbol .openParen) =>
    let ⟨_, c₁, h₁⟩ ← c.expect (.symbol .openParen)
    let ⟨inner, c₂, h₂⟩ ← c₁.expr
    let ⟨_, c₃, h₃⟩ ← c₂.expect (.symbol .closeParen)
    return ⟨.paren inner, c₃, by omega⟩
  | some (.keyword .newWord) =>
    let ⟨_, c₁, h₁⟩ ← c.expect (.keyword .newWord)
    let ⟨name, c₂, h₂⟩ ← c₁.ident "type name"
    return ⟨.construct name, c₂, by omega⟩
  | some (.keyword .negWord) =>
    let ⟨p, c₁, h₁⟩ ← c.expect (.keyword .negWord)
    let ⟨operand, c₂, h₂⟩ ← c₁.expr
    return ⟨.neg operand p, c₂, by omega⟩
  | some (.name _) =>
    if c.peekSecond = some (.symbol .openParen) then
      let ⟨(fn, args), c₁, h₁⟩ ← c.call
      return ⟨.call fn args, c₁, h₁⟩
    else
      let ⟨names, c₁, h₁⟩ ← c.path "variable name"
      return ⟨.path names, c₁, h₁⟩
  | _ =>
    let ⟨value, c₁, h₁⟩ ← c.take .expression literal?
    return ⟨.literal value c.pos, c₁, h₁⟩
termination_by 4 * c.rest.length + 1

/-- A function's name and its arguments in parentheses. -/
def call (c : Cursor) : Parse (Ident × List Expr) c := do
  let ⟨fn, c₁, h₁⟩ ← c.ident "function name"
  let ⟨_, c₂, h₂⟩ ← c₁.expect (.symbol .openParen)
  if c₂.peek = some (.symbol .closeParen) then
    let ⟨_, c₃, h₃⟩ ← c₂.expect (.symbol .closeParen)
    return ⟨(fn, []), c₃, by omega⟩
  else
    let ⟨args, c₃, h₃⟩ ← c₂.args
    return ⟨(fn, args), c₃, by omega⟩
termination_by 4 * c.rest.length

/-- One or more arguments with commas between them, and the closing parenthesis. -/
def args (c : Cursor) : Parse (List Expr) c := do
  let ⟨arg, c₁, h₁⟩ ← c.expr
  if c₁.peek = some (.symbol .comma) then
    let ⟨_, c₂, h₂⟩ ← c₁.expect (.symbol .comma)
    let ⟨more, c₃, h₃⟩ ← c₂.args
    return ⟨arg :: more, c₃, by omega⟩
  else
    let ⟨_, c₂, h₂⟩ ← c₁.expect (.symbol .closeParen)
    return ⟨[arg], c₂, by omega⟩
termination_by 4 * c.rest.length + 3

end

def startsExpr (c : Cursor) : Bool :=
  match c.peek with
  | some (.name _) | some (.keyword .newWord) | some (.keyword .negWord)
  | some (.keyword .notWord) | some (.symbol .openParen) => true
  | some t => (literal? t).isSome
  | none => false

/-- Whether a type stands before the name of a variable: a type's own word does, and a name does if
another name follows it. -/
def startsTyped (c : Cursor) : Bool :=
  match c.peek, c.peekSecond with
  | some (.name _), some (.name _) => true
  | some t, _ => t.isPrimitiveType
  | none, _ => false

/-- The name and first value of a variable whose type, if it is written, has been read. -/
def namedInit (c : Cursor) (declared : Option TypeNote) : Parse Binding c := do
  let ⟨name, c₁, h₁⟩ ← c.ident "variable name"
  let ⟨_, c₂, h₂⟩ ← c₁.expect (.symbol .assign)
  let ⟨init, c₃, h₃⟩ ← c₂.expr
  return ⟨⟨name, declared, init⟩, c₃, by omega⟩

def binding (c : Cursor) : Parse Binding c := do
  let ⟨_, c₁, h₁⟩ ← c.expect (.keyword .varWord)
  if c₁.startsTyped then
    let ⟨note, c₂, h₂⟩ ← c₁.typeNote
    let ⟨b, c₃, h₃⟩ ← c₂.namedInit (some note)
    return ⟨b, c₃, by omega⟩
  else
    let ⟨b, c₂, h₂⟩ ← c₁.namedInit none
    return ⟨b, c₂, by omega⟩

def direction (c : Cursor) : Parse Direction c :=
  c.take .direction fun
    | .keyword .uptoWord => some .upto
    | .keyword .downtoWord => some .downto
    | _ => none

mutual

def stmt (c : Cursor) : Parse Stmt c := do
  match c.peek with
  | some (.keyword .varWord) =>
    let ⟨b, c₁, h₁⟩ ← c.binding
    return ⟨.declare b, c₁, h₁⟩
  | some (.keyword .ifWord) =>
    let ⟨_, c₁, h₁⟩ ← c.expect (.keyword .ifWord)
    let ⟨branches, c₂, h₂⟩ ← c₁.branches
    return ⟨.cond branches, c₂, by omega⟩
  | some (.keyword .whileWord) =>
    let ⟨_, c₁, h₁⟩ ← c.expect (.keyword .whileWord)
    let ⟨test, c₂, h₂⟩ ← c₁.expr
    let ⟨body, c₃, h₃⟩ ← c₂.block
    return ⟨.loop test body, c₃, by omega⟩
  | some (.keyword .forWord) =>
    let ⟨_, c₁, h₁⟩ ← c.expect (.keyword .forWord)
    let ⟨var, c₂, h₂⟩ ← c₁.ident "loop variable"
    let ⟨_, c₃, h₃⟩ ← c₂.expect (.keyword .fromWord)
    let ⟨start, c₄, h₄⟩ ← c₃.expr
    let ⟨direction, c₅, h₅⟩ ← c₄.direction
    let ⟨stop, c₆, h₆⟩ ← c₅.expr
    let ⟨body, c₇, h₇⟩ ← c₆.block
    return ⟨.count var start direction stop body, c₇, by omega⟩
  | some (.keyword .returnWord) =>
    let ⟨p, c₁, h₁⟩ ← c.expect (.keyword .returnWord)
    if c₁.startsExpr then
      let ⟨value, c₂, h₂⟩ ← c₁.expr
      return ⟨.ret (some value) p, c₂, by omega⟩
    else return ⟨.ret none p, c₁, h₁⟩
  | some (.keyword .deleteWord) =>
    let ⟨_, c₁, h₁⟩ ← c.expect (.keyword .deleteWord)
    let ⟨name, c₂, h₂⟩ ← c₁.ident "variable name"
    return ⟨.delete name, c₂, by omega⟩
  | some (.name _) =>
    if c.peekSecond = some (.symbol .openParen) then
      let ⟨(fn, args), c₁, h₁⟩ ← c.call
      return ⟨.call fn args, c₁, h₁⟩
    else
      let ⟨target, c₁, h₁⟩ ← c.path "variable name"
      let ⟨_, c₂, h₂⟩ ← c₁.expect (.symbol .assign)
      let ⟨value, c₃, h₃⟩ ← c₂.expr
      return ⟨.assign target value, c₃, by omega⟩
  | _ => c.refuse .statement
termination_by 4 * c.rest.length

/-- The test and body behind `if` or `elif`, and the branches that follow. -/
def branches (c : Cursor) : Parse Branches c := do
  let ⟨test, c₁, h₁⟩ ← c.expr
  let ⟨body, c₂, h₂⟩ ← c₁.block
  match c₂.peek with
  | some (.keyword .elifWord) =>
    let ⟨_, c₃, h₃⟩ ← c₂.expect (.keyword .elifWord)
    let ⟨rest, c₄, h₄⟩ ← c₃.branches
    return ⟨.branch test body rest, c₄, by omega⟩
  | some (.keyword .elseWord) =>
    let ⟨_, c₃, h₃⟩ ← c₂.expect (.keyword .elseWord)
    let ⟨last, c₄, h₄⟩ ← c₃.block
    return ⟨.branch test body (.otherwise last), c₄, by omega⟩
  | _ => return ⟨.branch test body .done, c₂, by omega⟩
termination_by 4 * c.rest.length

def block (c : Cursor) : Parse (List Stmt) c := do
  let ⟨_, c₁, h₁⟩ ← c.expect (.symbol .openBrace)
  let ⟨body, c₂, h₂⟩ ← c₁.stmts
  return ⟨body, c₂, by omega⟩
termination_by 4 * c.rest.length

/-- Statements up to and with the closing brace. -/
def stmts (c : Cursor) : Parse (List Stmt) c := do
  match c.peek with
  | some (.symbol .closeBrace) =>
    let ⟨_, c₁, h₁⟩ ← c.expect (.symbol .closeBrace)
    return ⟨[], c₁, h₁⟩
  | none | some .eof => .error ⟨c.pos, .token (.symbol .closeBrace), none, c.read⟩
  | _ =>
    let ⟨first, c₁, h₁⟩ ← c.stmt
    let ⟨more, c₂, h₂⟩ ← c₁.stmts
    return ⟨first :: more, c₂, by omega⟩
termination_by 4 * c.rest.length + 1

end

/-- Fields up to and with the closing brace. -/
def fields (c : Cursor) : Parse (List Binding) c := do
  if c.peek = some (.keyword .varWord) then
    let ⟨field, c₁, h₁⟩ ← c.binding
    let ⟨more, c₂, h₂⟩ ← c₁.fields
    return ⟨field :: more, c₂, by omega⟩
  else
    let ⟨_, c₁, h₁⟩ ← c.expect (.symbol .closeBrace)
    return ⟨[], c₁, h₁⟩
termination_by c.rest.length

def recordDecl (c : Cursor) : Parse RecordDecl c := do
  let ⟨_, c₁, h₁⟩ ← c.expect (.keyword .typeWord)
  let ⟨name, c₂, h₂⟩ ← c₁.ident "type name"
  let ⟨_, c₃, h₃⟩ ← c₂.expect (.symbol .openBrace)
  let ⟨fields, c₄, h₄⟩ ← c₃.fields
  return ⟨⟨name, fields⟩, c₄, by omega⟩

/-- One or more parameters with commas between them, and the closing parenthesis. -/
def params (c : Cursor) : Parse (List Param) c := do
  let ⟨note, c₁, h₁⟩ ← c.typeNote
  let ⟨name, c₂, h₂⟩ ← c₁.ident "parameter name"
  if c₂.peek = some (.symbol .comma) then
    let ⟨_, c₃, h₃⟩ ← c₂.expect (.symbol .comma)
    let ⟨more, c₄, h₄⟩ ← c₃.params
    return ⟨⟨note, name⟩ :: more, c₄, by omega⟩
  else
    let ⟨_, c₃, h₃⟩ ← c₂.expect (.symbol .closeParen)
    return ⟨[⟨note, name⟩], c₃, by omega⟩
termination_by c.rest.length

/-- The parameters of a function behind its opening parenthesis. -/
def paramList (c : Cursor) : Parse (List Param) c := do
  if c.peek = some (.symbol .closeParen) then
    let ⟨_, c₁, h₁⟩ ← c.expect (.symbol .closeParen)
    return ⟨[], c₁, h₁⟩
  else c.params

def funDecl (c : Cursor) : Parse FunDecl c := do
  let ⟨_, c₁, h₁⟩ ← c.expect (.keyword .funWord)
  let ⟨ret, c₂, h₂⟩ ← c₁.returnNote
  let ⟨name, c₃, h₃⟩ ← c₂.ident "function name"
  let ⟨_, c₄, h₄⟩ ← c₃.expect (.symbol .openParen)
  let ⟨params, c₅, h₅⟩ ← c₄.paramList
  let ⟨body, c₆, h₆⟩ ← c₅.block
  return ⟨⟨ret, name, params, body⟩, c₆, by omega⟩

def program (c : Cursor) : Except ParseError Program := do
  match c.peek with
  | none | some .eof => return ⟨[], []⟩
  | some (.keyword .typeWord) =>
    let ⟨record, c₁, _⟩ ← c.recordDecl
    let later ← c₁.program
    return { later with records := record :: later.records }
  | some (.keyword .funWord) =>
    let ⟨fn, c₁, _⟩ ← c.funDecl
    let later ← c₁.program
    return { later with funs := fn :: later.funs }
  | _ => c.refuse .declaration
termination_by c.rest.length

end Cursor

def Program.parse (tokens : List Lexeme) : Except ParseError Program :=
  (Cursor.start tokens).program

/-- The expression at the front of a row of tokens. -/
def Expr.parse (tokens : List Lexeme) : Except ParseError Expr :=
  (Cursor.start tokens).expr.map Parsed.value

end RecordLang

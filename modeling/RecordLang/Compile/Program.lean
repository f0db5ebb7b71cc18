import RecordLang.Bytecode
import RecordLang.Compile.Stmt

/-! # Code of programs

Each function becomes a routine. It first moves its arguments, the first of which is on top of the
stack, into slots; a function that ends without a `return` yields nil.
-/

namespace RecordLang

/-- The state of code generation behind the parameters, which take the first slots. -/
def FunDecl.generator (f : FunDecl) : Generator :=
  f.params.foldl (fun g p => g.declare p.name.text) ⟨Scopes.push [], 0, 0⟩

/-- Code that moves the arguments into their slots. -/
def FunDecl.prologue (f : FunDecl) : Code :=
  (List.range f.params.length).map .store

/-- Code that ends a function whose body has no `return` of its own. -/
def FunDecl.epilogue (f : FunDecl) : Code :=
  if f.body.any Stmt.isReturn then [] else [.push .nil, .ret]

def FunDecl.compile (d : Declarations) (f : FunDecl) : Except CompileError Routine := do
  let (body, _) ← generateStmts d f.generator f.body
  let code ← assemble (emits f.prologue ++ body ++ emits f.epilogue)
  return ⟨f.name.text, f.params.length, code⟩

/-- The bytecode of a program whose declarations have the catalog `c`. -/
def Program.compile (p : Program) (c : Catalog) : Except CompileError Bytecode :=
  p.funs.mapM (FunDecl.compile ⟨c, p.records⟩)

end RecordLang

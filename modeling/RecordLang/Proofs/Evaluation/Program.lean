import RecordLang.Proofs.Evaluation.Tree

/-! # The meaning of programs

A function is evaluated in a fresh scope that holds its arguments; a record is made before the first
values of its fields are. A program means what its function `main` means.
-/

namespace RecordLang

open Eval

def FunDecl.bindArgs (f : FunDecl) (args : List Value) : Scopes Value :=
  (f.params.zip args).foldl (fun env (p, v) => env.declare p.name.text v) (Scopes.push [])

/-- The meaning of a call; a function that does not return a value yields nil. -/
def FunDecl.eval (k : Interp) (bound : Nat) (f : FunDecl) (args : List Value) : Eval Value := do
  match ← evalStmts k bound (f.bindArgs args) f.body with
  | .next _ => return .nil
  | .returned v => return v

/-- Stores the first values of fields, none of which knows of any variable. -/
def initFields (k : Interp) (owner : Value) : List Binding → Eval Unit
  | [] => pure ()
  | field :: rest => do
    let v ← field.init.eval k []
    setField owner field.name.text v
    initFields k owner rest

def RecordDecl.eval (k : Interp) (d : RecordDecl) : Eval Value := do
  let owner ← alloc (d.fields.map (·.name.text))
  initFields k owner d.fields
  return owner

namespace Program

/-- The meaning of the functions and records of a program, with calls and constructions nested less
than `bound` deep. -/
def interp (p : Program) : Nat → Interp
  | 0 => ⟨fun _ _ => unfinished, fun _ => unfinished⟩
  | n + 1 =>
    { call := fun name args =>
        match p.funs.find? (·.name.text = name) with
        | some f => if args.length = f.params.length then f.eval (p.interp n) n args else stuck
        | none => stuck
      construct := fun name =>
        match p.records.find? (·.name.text = name) with
        | some d => d.eval (p.interp n)
        | none => stuck }

/-- The meaning of a program within a bound on nesting and on turns of loops. -/
def eval (p : Program) (bound : Nat) : Eval Value := (p.interp bound).call "main" []

end Program

end RecordLang

import RecordLang.Builtin
import RecordLang.Program
import RecordLang.Proofs.Evaluation.Run
import RecordLang.Scopes

/-! # The meaning of expressions and statements

Names stand for values by lexical scope. Operands and arguments are evaluated from left to right,
and both operands of `and` and `or` always are. What is done by functions and by the making of
records is given from outside.
-/

namespace RecordLang

open Eval

/-- The value of a literal; a character is a string of length one. -/
def Literal.eval : Literal → Value
  | .int n => .int n
  | .double d => .double d
  | .bool b => .bool b
  | .char c => .string c.toString
  | .string s => .string s
  | .nil => .nil

/-- Whether a counted loop takes a turn with the value `v`, for the bound `last`. -/
def Direction.covers : Direction → Value → Value → Except Cause Value
  | .upto, v, last => BinOp.le.apply v last
  | .downto, v, last => BinOp.ge.apply v last

def Direction.following : Direction → Value → Except Cause Value
  | .upto, v => BinOp.add.apply v (.int 1)
  | .downto, v => BinOp.sub.apply v (.int 1)

/-- Gives a new value to the innermost variable of a name, if there is one. -/
def Scopes.assign? {α : Type} : Scopes α → String → α → Option (Scopes α)
  | [], _, _ => none
  | t :: s, name, v =>
    if t.has name then some (t.put name v :: s) else (assign? s name v).map (t :: ·)

structure Interp where
  call : String → List Value → Eval Value
  construct : String → Eval Value

def Builtin.eval : Builtin → List Value → Eval Value
  | .print, [v] => do
    write v
    return .nil
  | .read, [] => Eval.read
  | .length, [v] => lift v.length
  | .get, [index, text] => do
    let s ← lift text.asString
    let i ← lift index.asInt
    lift (Value.charAt s i)
  | .stoi, [v] | .dtoi, [v] => lift v.toInt
  | .stod, [v] | .itod, [v] => lift v.toDouble
  | .itos, [v] | .dtos, [v] => lift v.toText
  | _, _ => stuck

def Interp.apply (k : Interp) (fn : String) (args : List Value) : Eval Value :=
  match Builtin.ofName? fn with
  | some b => b.eval args
  | none => k.call fn args

def walk (v : Value) : List Ident → Eval Value
  | [] => pure v
  | field :: rest => do
    let next ← getField v field.text
    walk next rest

def evalPath (env : Scopes Value) : List Ident → Eval Value
  | [] => stuck
  | head :: fields => do
    let v ← known (env.find? head.text)
    walk v fields

def evalStore (env : Scopes Value) (v : Value) : List Ident → Eval (Scopes Value)
  | [] => stuck
  | head :: fields =>
    match fields.getLast? with
    | none => known (env.assign? head.text v)
    | some last => do
      let owner ← evalPath env (head :: fields.dropLast)
      setField owner last.text v
      return env

def negate (negated : Bool) (v : Value) : Eval Value := if negated then lift v.not else pure v

mutual

def Expr.eval (k : Interp) (env : Scopes Value) : Expr → Eval Value
  | .single negated first _ => do
    let v ← first.eval k env
    negate negated v
  | .chain negated first op _ rest _ => do
    let a ← first.eval k env
    let b ← rest.eval k env
    let v ← lift (op.apply a b)
    negate negated v

def Term.eval (k : Interp) (env : Scopes Value) : Term → Eval Value
  | .literal v _ => pure v.eval
  | .construct r => k.construct r.text
  | .path names => evalPath env names
  | .call fn args => do
    let values ← evalArgs k env args
    k.apply fn.text values
  | .neg operand _ => do
    let v ← operand.eval k env
    lift v.neg
  | .paren inner => inner.eval k env

def evalArgs (k : Interp) (env : Scopes Value) : List Expr → Eval (List Value)
  | [] => pure []
  | arg :: args => do
    let v ← arg.eval k env
    let values ← evalArgs k env args
    return v :: values

end

/-- Where a statement leads to: to the next one, with the variables as they are then, or out of the
function. -/
inductive Flow where
  | next (env : Scopes Value)
  | returned (value : Value)

def Flow.leaveBlock : Flow → Flow
  | .next env => .next env.pop
  | .returned v => .returned v

def whileTurn (test : Scopes Value → Eval Value) (body : Scopes Value → Eval Flow)
    (env : Scopes Value) : Eval (Turn (Scopes Value) Flow) := do
  let t ← test env
  if ← truth t then
    match ← body env.push with
    | .next env => return .again env.pop
    | .returned v => return .ended (.returned v)
  else return .ended (.next env)

/-- The turn of a counted loop, whose variable has the value `v`. The bound is evaluated outside of
the scope of the variable, which the body shares. -/
def countTurn (name : String) (direction : Direction) (stop : Scopes Value → Eval Value)
    (body : Scopes Value → Eval Flow) :
    Scopes Value × Value → Eval (Turn (Scopes Value × Value) Flow)
  | (env, v) => do
    let last ← stop env
    let t ← lift (direction.covers v last)
    if ← truth t then
      match ← body (env.push.declare name v) with
      | .next env => do
        let v ← known (env.find? name)
        let v ← lift (direction.following v)
        return .again (env.pop, v)
      | .returned v => return .ended (.returned v)
    else return .ended (.next env)

mutual

/-- The meaning of a statement; loops take at most `bound` turns. -/
def Stmt.eval (k : Interp) (bound : Nat) (env : Scopes Value) : Stmt → Eval Flow
  | .declare b => do
    let v ← b.init.eval k env
    return .next (env.declare b.name.text v)
  | .assign target value => do
    let v ← value.eval k env
    let env ← evalStore env v target
    return .next env
  | .cond branches => branches.eval k bound env
  | .loop test body =>
    repeatFor (whileTurn (fun env => test.eval k env) fun env => evalStmts k bound env body)
      bound env
  | .count var start direction stop body => do
    let v ← start.eval k env
    repeatFor (countTurn var.text direction (fun env => stop.eval k env)
      fun env => evalStmts k bound env body) bound (env, v)
  | .ret none _ => return .returned .nil
  | .ret (some value) _ => do
    let v ← value.eval k env
    return .returned v
  | .delete name => do
    let v ← known (env.find? name.text)
    free v
    return .next env
  | .call fn args => do
    let values ← evalArgs k env args
    let _ ← k.apply fn.text values
    return .next env

def evalStmts (k : Interp) (bound : Nat) (env : Scopes Value) : List Stmt → Eval Flow
  | [] => pure (.next env)
  | s :: rest => do
    match ← s.eval k bound env with
    | .next env => evalStmts k bound env rest
    | .returned v => return .returned v

/-- The meaning of a conditional: that of its first branch whose test holds. -/
def Branches.eval (k : Interp) (bound : Nat) (env : Scopes Value) : Branches → Eval Flow
  | .done => pure (.next env)
  | .otherwise body => do
    let flow ← evalStmts k bound env.push body
    return flow.leaveBlock
  | .branch test body rest => do
    let t ← test.eval k env
    if ← truth t then
      let flow ← evalStmts k bound env.push body
      return flow.leaveBlock
    else rest.eval k bound env

end

variable {k : Interp} {bound : Nat}

theorem Stmt.eval_isReturn {s : Stmt} (hs : s.isReturn = true) {env : Scopes Value} {flow : Flow}
    {w w' : World} (h : s.eval k bound env w = .done flow w') : ∃ v, flow = .returned v := by
  cases s with
  | ret value p =>
    cases value with
    | none =>
      cases h
      exact ⟨.nil, rfl⟩
    | some e =>
      replace h : Eval.bind (e.eval k env) (fun v => Eval.pure (.returned v)) w = .done flow w' := h
      unfold Eval.bind at h
      split at h
      next v w₁ _ =>
        cases h
        exact ⟨v, rfl⟩
      all_goals cases h
  | _ => cases hs

theorem evalStmts_next {ss : List Stmt} {env env' : Scopes Value} {w w' : World}
    (h : evalStmts k bound env ss w = .done (.next env') w') : ss.any Stmt.isReturn = false := by
  induction ss generalizing env w with
  | nil => rfl
  | cons s rest ih =>
    replace h : Eval.bind (s.eval k bound env) (fun flow => match flow with
      | .next env => evalStmts k bound env rest
      | .returned v => pure (.returned v)) w = .done (.next env') w' := h
    unfold Eval.bind at h
    split at h
    next flow w₁ hs =>
      cases flow with
      | returned v => cases h
      | next env₁ =>
        rw [List.any_cons, ih h, Bool.or_false]
        cases hret : s.isReturn with
        | false => rfl
        | true =>
          obtain ⟨v, hv⟩ := Stmt.eval_isReturn hret hs
          cases hv
    all_goals cases h

end RecordLang

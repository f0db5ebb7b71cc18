import RecordLang.Proofs.Compile.Slots
import RecordLang.Proofs.Simulation.Instructions

/-! # Code of expressions follows their meaning

The code of an expression puts the value of the expression on the stack and leaves the slots alone.
What calls and constructions do is taken from outside, as in the evaluation of trees.
-/

namespace RecordLang

open Machine

structure Backs (G : Ground) (d : Declarations) (k : Interp) (n : Nat) : Prop where
  call : ∀ {name : String} {args : List Value} {r : Routine} {ls : Array Value} {st : List Value}
    {pc : Nat} {cs : List Frame} {w : World} {m : Machine}, r.code[pc]? = some (.call name) →
    At G (⟨r, ls, args.reverse ++ st, pc⟩ :: cs) w m →
    Follows n m (k.call name args w) fun v w m => At G (⟨r, ls, v :: st, pc + 1⟩ :: cs) w m
  construct : ∀ {slots : Scopes Nat} {nesting : Nat} {name : Ident} {code : Code} {r : Routine}
    {ls : Array Value} {st : List Value} {pc : Nat} {cs : List Frame} {w : World} {m : Machine},
    d.constructCode slots nesting name = .ok code → r.Has pc code →
    At G (⟨r, ls, st, pc⟩ :: cs) w m →
    Follows n m (k.construct name.text w) fun v w m =>
      At G (⟨r, ls, v :: st, pc + code.length⟩ :: cs) w m

def Shows (ls : Array Value) (slots : Scopes Nat) (env : Scopes Value) : Prop :=
  ∀ x slot v, slots.find? x = some slot → env.find? x = some v → ls[slot]? = some v

variable {G : Ground} {d : Declarations} {k : Interp} {n nesting : Nat} {r : Routine}
  {ls : Array Value} {cs : List Frame} {slots : Scopes Nat} {env : Scopes Value}

theorem walk_follows (fields : List Ident) {v : Value} {st : List Value} {pc : Nat} {w : World}
    {m : Machine} (hcode : r.Has pc (fields.map fun f => .getField f.text))
    (hat : At G (⟨r, ls, v :: st, pc⟩ :: cs) w m) :
    Follows n m (walk v fields w) fun u w m =>
      At G (⟨r, ls, u :: st, pc + fields.length⟩ :: cs) w m := by
  induction fields generalizing v pc w m with
  | nil => exact .here hat
  | cons field rest ih =>
    apply (hat.getField hcode.head).bind
    intro u w m hat
    have h := ih hcode.tail hat
    rwa [List.length_cons, Nat.add_comm rest.length, ← Nat.add_assoc]

theorem loadPath_follows (hv : Shows ls slots env) {head : Ident} {fields : List Ident} {slot : Nat}
    {st : List Value} {pc : Nat} {w : World} {m : Machine}
    (hs : slots.find? head.text = some slot) (hcode : r.Has pc (loadPath slot fields))
    (hat : At G (⟨r, ls, st, pc⟩ :: cs) w m) :
    Follows n m (evalPath env (head :: fields) w) fun v w m =>
      At G (⟨r, ls, v :: st, pc + (loadPath slot fields).length⟩ :: cs) w m := by
  apply Follows.known
  intro v hx
  obtain ⟨m', hstep, hat'⟩ := hat.load hcode.head (hv _ _ _ hs hx)
  have h : Follows n m' (walk v fields w) _ := walk_follows fields hcode.tail hat'
  rw [loadPath, List.length_cons, List.length_map, Nat.add_comm fields.length, ← Nat.add_assoc]
  exact h.after (.single hstep)

theorem pathCode_follows (hv : Shows ls slots env) {names : List Ident} {code : Code}
    {st : List Value} {pc : Nat} {w : World} {m : Machine} (hok : pathCode slots names = .ok code)
    (hcode : r.Has pc code) (hat : At G (⟨r, ls, st, pc⟩ :: cs) w m) :
    Follows n m (evalPath env names w) fun v w m =>
      At G (⟨r, ls, v :: st, pc + code.length⟩ :: cs) w m := by
  cases names with
  | nil => cases hok
  | cons head fields =>
    obtain ⟨slot, hs, hok⟩ := bind_eq_ok.mp hok
    cases hok
    exact loadPath_follows hv (slotOf_eq_ok hs) hcode hat

theorem negation_follows (negated : Bool) {v : Value} {st : List Value} {pc : Nat} {w : World}
    {m : Machine} (hcode : r.Has pc (negation negated))
    (hat : At G (⟨r, ls, v :: st, pc⟩ :: cs) w m) :
    Follows n m (negate negated v w) fun u w m =>
      At G (⟨r, ls, u :: st, pc + (negation negated).length⟩ :: cs) w m := by
  cases negated with
  | false => exact .here hat
  | true => exact hat.unary hcode.head fun _ _ => rfl

/-- A built-in function takes its arguments from the stack, the last of them on top. -/
theorem Builtin.code_follows (b : Builtin) {args : List Value} {st : List Value} {pc : Nat}
    {w : World} {m : Machine} (hcode : r.Has pc b.code)
    (hat : At G (⟨r, ls, args.reverse ++ st, pc⟩ :: cs) w m) :
    Follows n m (b.eval args w) fun v w m =>
      At G (⟨r, ls, v :: st, pc + b.code.length⟩ :: cs) w m := by
  cases b with
  | print =>
    match args, hat with
    | [v], hat =>
      apply (hat.write hcode.head).bind
      intro _ w m hat
      obtain ⟨m', hstep, hat'⟩ := hat.push hcode.tail.head
      exact ⟨m', .single hstep, hat'⟩
    | [], _ => trivial
    | _ :: _ :: _, _ => trivial
  | read =>
    match args, hat with
    | [], hat => exact hat.read hcode.head
    | _ :: _, _ => trivial
  | get =>
    match args, hat with
    | [index, text], hat => exact hat.charAt hcode.head
    | [], _ => trivial
    | [_], _ => trivial
    | _ :: _ :: _ :: _, _ => trivial
  | _ =>
    match args, hat with
    | [v], hat => exact hat.unary hcode.head fun _ _ => rfl
    | [], _ => trivial
    | _ :: _ :: _, _ => trivial

theorem applyCode_follows (hk : Backs G d k n) (fn : String) {args : List Value} {st : List Value}
    {pc : Nat} {w : World} {m : Machine} (hcode : r.Has pc (applyCode fn))
    (hat : At G (⟨r, ls, args.reverse ++ st, pc⟩ :: cs) w m) :
    Follows n m (k.apply fn args w) fun v w m =>
      At G (⟨r, ls, v :: st, pc + (applyCode fn).length⟩ :: cs) w m := by
  unfold Interp.apply
  unfold applyCode at hcode ⊢
  cases hb : Builtin.ofName? fn with
  | some b =>
    simp only [hb] at hcode ⊢
    exact b.code_follows hcode hat
  | none =>
    simp only [hb] at hcode ⊢
    exact hk.call hcode.head hat

theorem Literal.value_eq_eval (l : Literal) : l.value = l.eval := by
  cases l <;> rfl

mutual

theorem Expr.code_follows (hk : Backs G d k n) (hv : Shows ls slots env) (e : Expr) {code : Code}
    {st : List Value} {pc : Nat} {w : World} {m : Machine}
    (hok : e.codeWith (d.constructCode slots nesting) slots = .ok code) (hcode : r.Has pc code)
    (hat : At G (⟨r, ls, st, pc⟩ :: cs) w m) :
    Follows n m (e.eval k env w) fun v w m =>
      At G (⟨r, ls, v :: st, pc + code.length⟩ :: cs) w m := by
  match e with
  | .single negated first _ =>
    obtain ⟨left, hleft, hok⟩ := bind_eq_ok.mp hok
    cases hok
    apply (first.code_follows hk hv hleft hcode.left hat).bind
    intro v w m hat
    rw [List.length_append, ← Nat.add_assoc]
    exact negation_follows negated hcode.right hat
  | .chain negated first op _ rest _ =>
    obtain ⟨left, hleft, hok⟩ := bind_eq_ok.mp hok
    obtain ⟨right, hright, hok⟩ := bind_eq_ok.mp hok
    cases hok
    apply (first.code_follows hk hv hleft hcode.left.left hat).bind
    intro a w m hat
    apply (rest.code_follows hk hv hright hcode.left.right hat).bind
    intro b w m hat
    have hop := hcode.right
    rw [List.length_append, ← Nat.add_assoc] at hop
    apply (hat.binary hop.head).bind
    intro v w m hat
    have h := negation_follows negated hop.tail hat (n := n)
    simpa [Nat.add_assoc, Nat.add_comm 1] using h

theorem Term.code_follows (hk : Backs G d k n) (hv : Shows ls slots env) (t : Term) {code : Code}
    {st : List Value} {pc : Nat} {w : World} {m : Machine}
    (hok : t.codeWith (d.constructCode slots nesting) slots = .ok code) (hcode : r.Has pc code)
    (hat : At G (⟨r, ls, st, pc⟩ :: cs) w m) :
    Follows n m (t.eval k env w) fun v w m =>
      At G (⟨r, ls, v :: st, pc + code.length⟩ :: cs) w m := by
  match t with
  | .literal v _ =>
    cases hok
    obtain ⟨m', hstep, hat'⟩ := hat.push hcode.head
    rw [Literal.value_eq_eval] at hat'
    exact ⟨m', .single hstep, hat'⟩
  | .construct _ => exact hk.construct hok hcode hat
  | .path _ => exact pathCode_follows hv hok hcode hat
  | .call fn args =>
    obtain ⟨argsCode, hargs, hok⟩ := bind_eq_ok.mp hok
    cases hok
    apply (argsCode_follows hk hv args hargs hcode.left hat).bind
    intro values w m hat
    rw [List.length_append, ← Nat.add_assoc]
    exact applyCode_follows hk fn.text hcode.right hat
  | .neg operand _ =>
    obtain ⟨inner, hinner, hok⟩ := bind_eq_ok.mp hok
    cases hok
    apply (operand.code_follows hk hv hinner hcode.left hat).bind
    intro v w m hat
    rw [List.length_append, ← Nat.add_assoc]
    exact hat.unary hcode.right.head fun _ _ => rfl
  | .paren inner => exact inner.code_follows hk hv hok hcode hat

theorem argsCode_follows (hk : Backs G d k n) (hv : Shows ls slots env) (args : List Expr)
    {code : Code} {st : List Value} {pc : Nat} {w : World} {m : Machine}
    (hok : argsCodeWith (d.constructCode slots nesting) slots args = .ok code)
    (hcode : r.Has pc code) (hat : At G (⟨r, ls, st, pc⟩ :: cs) w m) :
    Follows n m (evalArgs k env args w) fun values w m =>
      At G (⟨r, ls, values.reverse ++ st, pc + code.length⟩ :: cs) w m := by
  match args with
  | [] =>
    cases hok
    exact .here hat
  | arg :: args =>
    obtain ⟨first, hfirst, hok⟩ := bind_eq_ok.mp hok
    obtain ⟨more, hmore, hok⟩ := bind_eq_ok.mp hok
    cases hok
    apply (arg.code_follows hk hv hfirst hcode.left hat).bind
    intro v w m hat
    apply (argsCode_follows hk hv args hmore hcode.right hat).bind
    intro values w m hat
    exact .here (by simpa [Nat.add_assoc] using hat)

end

end RecordLang

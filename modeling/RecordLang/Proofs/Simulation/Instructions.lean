import RecordLang.Proofs.Evaluation.Tree
import RecordLang.Proofs.Simulation.Tracking

/-! # Instructions and their meaning

Each instruction does in the machine what an evaluation does in the world; its operands are on the
stack, and its result takes their place.
-/

namespace RecordLang

/-- The instructions `is` stand in the routine from the index `pc` on. -/
def Routine.Has (r : Routine) (pc : Nat) (is : List Instruction) : Prop :=
  ∀ j i, is[j]? = some i → r.code[pc + j]? = some i

namespace Routine

variable {r : Routine} {pc : Nat} {i : Instruction} {is is' : List Instruction}

theorem Has.of_take (h : (r.code.toList.drop pc).take is.length = is) : r.Has pc is := by
  intro j i hj
  have hlt : j < is.length := (List.getElem?_eq_some_iff.mp hj).1
  rw [← h, List.getElem?_take_of_lt hlt, List.getElem?_drop, Array.getElem?_toList] at hj
  exact hj

theorem Has.head (h : r.Has pc (i :: is)) : r.code[pc]? = some i := h 0 i rfl

theorem Has.tail (h : r.Has pc (i :: is)) : r.Has (pc + 1) is := by
  intro j k hj
  rw [Nat.add_right_comm]
  exact h (j + 1) k hj

theorem Has.left (h : r.Has pc (is ++ is')) : r.Has pc is := by
  intro j k hj
  apply h
  rw [List.getElem?_append_left (List.getElem?_eq_some_iff.mp hj).1, hj]

theorem Has.right (h : r.Has pc (is ++ is')) : r.Has (pc + is.length) is' := by
  intro j k hj
  rw [Nat.add_assoc]
  apply h
  rw [List.getElem?_append_right (Nat.le_add_right _ _), Nat.add_sub_cancel_left, hj]

end Routine

namespace Machine

section Innermost

variable {r : Routine} {ls : Array Value} {st : List Value} {pc slot t : Nat} {u v w : Value}

def setSlot (ls : Array Value) (slot : Nat) (v : Value) : Array Value :=
  (ls ++ Array.replicate (slot + 1 - ls.size) Value.nil).setIfInBounds slot v

theorem exec_push (x : Machine) :
    x.exec (Frame.advance ⟨r, ls, st, pc⟩) (.push v) = x.goOn ⟨r, ls, v :: st, pc + 1⟩ := rfl

theorem exec_jump (x : Machine) :
    x.exec (Frame.advance ⟨r, ls, st, pc⟩) (.jump t) = x.goOn ⟨r, ls, st, t⟩ := rfl

theorem exec_jumpIfFalse (b : Bool) (x : Machine) :
    x.exec (Frame.advance ⟨r, ls, .bool b :: st, pc⟩) (.jumpIfFalse t) =
      x.goOn ⟨r, ls, st, if b then pc + 1 else t⟩ := by
  cases b <;> rfl

theorem exec_load (hv : ls[slot]? = some v) (x : Machine) :
    x.exec (Frame.advance ⟨r, ls, st, pc⟩) (.load slot) = x.goOn ⟨r, ls, v :: st, pc + 1⟩ := by
  simp only [exec, result, attempt, Frame.load, Frame.advance, hv]
  rfl

theorem exec_store (hslot : slot < maxLocals) (x : Machine) :
    x.exec (Frame.advance ⟨r, ls, v :: st, pc⟩) (.store slot) =
      x.goOn ⟨r, setSlot ls slot v, st, pc + 1⟩ := by
  simp only [exec, operand, attempt, Frame.pop, Frame.store, Frame.advance, if_pos hslot]
  rfl

theorem exec_binary {op : BinOp} (hop : op.apply v w = .ok u) (x : Machine) :
    x.exec (Frame.advance ⟨r, ls, w :: v :: st, pc⟩) (.binary op) =
      x.goOn ⟨r, ls, u :: st, pc + 1⟩ := by
  simp only [exec, operand, attempt, Frame.pop, Frame.advance, result, hop]
  rfl

end Innermost

variable {α : Type} {G : Ground} {r : Routine} {ls : Array Value} {st : List Value} {pc n : Nat}
  {cs : List Frame} {w : World} {m : Machine} {i : Instruction}

theorem At.next {f : Frame} {fs : List Frame} {w' : World} (h : At G (f :: cs) w m)
    (hi : f.instr? = some i)
    (hx : ∀ verify steps, (G.machine verify steps (f.advance :: cs) w).exec f.advance i =
      .next (G.machine verify steps fs w')) :
    ∃ m', m.step = .running m' ∧ At G fs w' m' := by
  obtain ⟨⟨verify, steps, rfl⟩, hc⟩ := h
  have hstep : (G.machine verify steps (f :: cs) w).step =
      .running (G.machine verify (steps + 1) fs w') := by
    rw [Ground.step_machine hi, hx]
    rfl
  exact ⟨_, hstep, ⟨_, _, rfl⟩, hc.step G.labelled hstep⟩

theorem At.fails {f : Frame} {c : Cause} {w' : World} (h : At G (f :: cs) w m)
    (hi : f.instr? = some i)
    (hx : ∀ verify steps, ∃ m₁ : Machine,
      (G.machine verify steps (f.advance :: cs) w).exec f.advance i = .failed c m₁ ∧
        m₁.world = w') :
    m.Fails c w' := by
  obtain ⟨⟨verify, steps, rfl⟩, hc⟩ := h
  obtain ⟨m₁, hm₁, hw⟩ := hx verify (steps + 1)
  exact ⟨_, m₁, by rw [Ground.step_machine hi, hm₁]; rfl, rfl, hw⟩

theorem At.instr {f : Frame} {r : Run α} (h : At G (f :: cs) w m) (fs : α → List Frame)
    (hi : f.instr? = some i)
    (hx : ∀ verify steps, G.Yields verify steps
      ((G.machine verify steps (f.advance :: cs) w).exec f.advance i) r fs) :
    Follows n m r fun a w m => At G (fs a) w m := by
  cases r with
  | done a w' =>
    obtain ⟨m', hstep, hat⟩ := h.next hi hx
    exact ⟨m', .single hstep, hat⟩
  | failed c w' => exact ⟨m, .refl m, h.fails hi hx⟩
  | stuck => trivial
  | unfinished => exact (hx true 0).elim

section Pure

theorem At.push {v : Value} (h : At G (⟨r, ls, st, pc⟩ :: cs) w m)
    (hi : r.code[pc]? = some (.push v)) :
    ∃ m', m.step = .running m' ∧ At G (⟨r, ls, v :: st, pc + 1⟩ :: cs) w m' :=
  h.next hi fun _ _ => rfl

theorem At.pop {v : Value} (h : At G (⟨r, ls, v :: st, pc⟩ :: cs) w m)
    (hi : r.code[pc]? = some .pop) :
    ∃ m', m.step = .running m' ∧ At G (⟨r, ls, st, pc + 1⟩ :: cs) w m' :=
  h.next hi fun _ _ => rfl

theorem At.dup {v : Value} (h : At G (⟨r, ls, v :: st, pc⟩ :: cs) w m)
    (hi : r.code[pc]? = some .dup) :
    ∃ m', m.step = .running m' ∧ At G (⟨r, ls, v :: v :: st, pc + 1⟩ :: cs) w m' :=
  h.next hi fun _ _ => rfl

theorem At.swap {a b : Value} (h : At G (⟨r, ls, b :: a :: st, pc⟩ :: cs) w m)
    (hi : r.code[pc]? = some .swap) :
    ∃ m', m.step = .running m' ∧ At G (⟨r, ls, a :: b :: st, pc + 1⟩ :: cs) w m' :=
  h.next hi fun _ _ => rfl

theorem At.jump {t : Nat} (h : At G (⟨r, ls, st, pc⟩ :: cs) w m)
    (hi : r.code[pc]? = some (.jump t)) :
    ∃ m', m.step = .running m' ∧ At G (⟨r, ls, st, t⟩ :: cs) w m' :=
  h.next hi fun _ _ => rfl

theorem At.load {slot : Nat} {v : Value} (h : At G (⟨r, ls, st, pc⟩ :: cs) w m)
    (hi : r.code[pc]? = some (.load slot)) (hv : ls[slot]? = some v) :
    ∃ m', m.step = .running m' ∧ At G (⟨r, ls, v :: st, pc + 1⟩ :: cs) w m' :=
  h.next hi fun _ _ => exec_load hv _

theorem At.store {slot : Nat} {v : Value} (h : At G (⟨r, ls, v :: st, pc⟩ :: cs) w m)
    (hi : r.code[pc]? = some (.store slot)) :
    ∃ m', m.step = .running m' ∧ At G (⟨r, setSlot ls slot v, st, pc + 1⟩ :: cs) w m' := by
  have hlt : slot < maxLocals := by
    obtain ⟨⟨verify, steps, rfl⟩, hc⟩ := h
    exact hc.slot_lt G.labelled rfl hi rfl
  exact h.next hi fun _ _ => exec_store hlt _

/-- A call moves the arguments to a frame of their own, where the first of them is on top. -/
theorem At.call {name : String} {callee : Routine} {args : List Value}
    (h : At G (⟨r, ls, args.reverse ++ st, pc⟩ :: cs) w m)
    (hi : r.code[pc]? = some (.call name)) (hr : G.routines.get? name = some callee)
    (ha : callee.arity = args.length) :
    ∃ m', m.step = .running m' ∧
      At G (⟨callee, #[], args, 0⟩ :: ⟨r, ls, st, pc + 1⟩ :: cs) w m' := by
  refine h.next hi fun _ _ => ?_
  have hlen : ¬ (args.reverse ++ st).length < callee.arity := by
    simp [ha]
  have htake : (args.reverse ++ st).take callee.arity = args.reverse := by
    rw [ha, ← List.length_reverse, List.take_left]
  have hdrop : (args.reverse ++ st).drop callee.arity = st := by
    rw [ha, ← List.length_reverse, List.drop_left]
  simp only [exec, Machine.call, Ground.machine, hr, Frame.advance, Option.filter_none, if_neg hlen,
    htake, hdrop, List.reverse_reverse, List.tail_cons]

theorem At.ret {v : Value} {s : List Value} {caller : Frame}
    (h : At G (⟨r, ls, v :: s, pc⟩ :: caller :: cs) w m) (hi : r.code[pc]? = some .ret) :
    ∃ m', m.step = .running m' ∧ At G (caller.push v :: cs) w m' :=
  h.next hi fun _ _ => rfl

theorem At.finish {v : Value} {s : List Value} (h : At G [⟨r, ls, v :: s, pc⟩] w m)
    (hi : r.code[pc]? = some .ret) :
    ∃ m', m.step = .stopped (.finished v) m' ∧ m'.world = w := by
  obtain ⟨⟨verify, steps, rfl⟩, hc⟩ := h
  have hi' : Frame.instr? ⟨r, ls, v :: s, pc⟩ = some .ret := hi
  exact ⟨_, by rw [Ground.step_machine hi']; rfl, rfl⟩

theorem At.alloc {fields : List String} (h : At G (⟨r, ls, st, pc⟩ :: cs) w m)
    (hi : r.code[pc]? = some (.alloc fields)) :
    ∃ m', m.step = .running m' ∧
      At G (⟨r, ls, .object (w.heap.alloc fields).1 :: st, pc + 1⟩ :: cs)
        { w with heap := (w.heap.alloc fields).2 } m' :=
  h.next hi fun _ _ => rfl

end Pure

section Effects

theorem At.unary {op : Value → Except Cause Value} {v : Value}
    (h : At G (⟨r, ls, v :: st, pc⟩ :: cs) w m) (hi : r.code[pc]? = some i)
    (hop : ∀ m f, Machine.exec m f i = m.unary f op) :
    Follows n m (Eval.lift (op v) w) fun u w m => At G (⟨r, ls, u :: st, pc + 1⟩ :: cs) w m := by
  apply h.instr (fun u => ⟨r, ls, u :: st, pc + 1⟩ :: cs) hi
  intro verify steps
  simp only [hop, Machine.unary, operand, attempt, Frame.pop, Frame.advance, result]
  cases op v with
  | ok u => rfl
  | error c => exact ⟨_, rfl, rfl⟩

theorem At.binary {op : BinOp} {a b : Value} (h : At G (⟨r, ls, b :: a :: st, pc⟩ :: cs) w m)
    (hi : r.code[pc]? = some (.binary op)) :
    Follows n m (Eval.lift (op.apply a b) w) fun u w m =>
      At G (⟨r, ls, u :: st, pc + 1⟩ :: cs) w m := by
  apply h.instr (fun u => ⟨r, ls, u :: st, pc + 1⟩ :: cs) hi
  intro verify steps
  simp only [exec, operand, attempt, Frame.pop, Frame.advance, result]
  cases op.apply a b with
  | ok u => rfl
  | error c => exact ⟨_, rfl, rfl⟩

theorem At.jumpIfFalse {t : Nat} {v : Value} (h : At G (⟨r, ls, v :: st, pc⟩ :: cs) w m)
    (hi : r.code[pc]? = some (.jumpIfFalse t)) :
    Follows n m (Eval.truth v w) fun b w m =>
      At G (⟨r, ls, st, if b then pc + 1 else t⟩ :: cs) w m := by
  apply h.instr (fun b : Bool => ⟨r, ls, st, if b then pc + 1 else t⟩ :: cs) hi
  intro verify steps
  cases v with
  | bool b => cases b <;> rfl
  | nil => exact ⟨_, rfl, rfl⟩
  | _ => trivial

theorem At.write {v : Value} (h : At G (⟨r, ls, v :: st, pc⟩ :: cs) w m)
    (hi : r.code[pc]? = some .write) :
    Follows n m (Eval.write v w) fun _ w m => At G (⟨r, ls, st, pc + 1⟩ :: cs) w m := by
  apply h.instr (fun _ => ⟨r, ls, st, pc + 1⟩ :: cs) hi
  intro verify steps
  simp only [exec, Machine.write, operand, attempt, Frame.pop, Frame.advance, Eval.write,
    Ground.machine_output]
  rcases w.output.write v.text with ⟨_ | reason, output⟩
  · rfl
  · exact ⟨_, rfl, rfl⟩

theorem At.read (h : At G (⟨r, ls, st, pc⟩ :: cs) w m) (hi : r.code[pc]? = some .read) :
    Follows n m (Eval.read w) fun v w m => At G (⟨r, ls, v :: st, pc + 1⟩ :: cs) w m := by
  apply h.instr (fun v => ⟨r, ls, v :: st, pc + 1⟩ :: cs) hi
  intro verify steps
  simp only [exec, Machine.read, Frame.advance, Eval.read, Ground.machine_output,
    Ground.machine_input]
  rcases w.output.flush with ⟨_ | reason, output⟩
  · rcases readLine w.input with ⟨_ | line, input⟩
    · exact ⟨_, rfl, rfl⟩
    · rfl
  · exact ⟨_, rfl, rfl⟩

theorem At.charAt {index text : Value} (h : At G (⟨r, ls, text :: index :: st, pc⟩ :: cs) w m)
    (hi : r.code[pc]? = some .charAt) :
    Follows n m (Builtin.eval .get [index, text] w) fun v w m =>
      At G (⟨r, ls, v :: st, pc + 1⟩ :: cs) w m := by
  apply h.instr (fun v => ⟨r, ls, v :: st, pc + 1⟩ :: cs) hi
  intro verify steps
  simp only [exec, operand, attempt, Frame.pop, Frame.advance, result, Builtin.eval]
  show G.Yields _ _ _ (Eval.bind _ _ w) _
  cases text.asString with
  | error c => exact ⟨_, rfl, rfl⟩
  | ok s =>
    show G.Yields _ _ _ (Eval.bind _ _ w) _
    cases index.asInt with
    | error c => exact ⟨_, rfl, rfl⟩
    | ok j =>
      show G.Yields _ _ _ (Eval.lift (Value.charAt s j) w) _
      simp only
      cases Value.charAt s j with
      | error c => exact ⟨_, rfl, rfl⟩
      | ok v => rfl

theorem At.free {v : Value} (h : At G (⟨r, ls, v :: st, pc⟩ :: cs) w m)
    (hi : r.code[pc]? = some .free) :
    Follows n m (Eval.free v w) fun _ w m => At G (⟨r, ls, st, pc + 1⟩ :: cs) w m := by
  apply h.instr (fun _ => ⟨r, ls, st, pc + 1⟩ :: cs) hi
  intro verify steps
  simp only [exec, operand, attempt, Frame.pop, Frame.advance, Eval.free, Ground.machine_heap]
  show G.Yields _ _ _ (Eval.bind _ _ w) _
  cases v.asObject with
  | error c => exact ⟨_, rfl, rfl⟩
  | ok id =>
    simp only [Eval.bind, Eval.lift, Eval.pure]
    cases w.heap.free id with
    | error c => exact ⟨_, rfl, rfl⟩
    | ok heap => rfl

theorem At.getField {owner : Value} {name : String}
    (h : At G (⟨r, ls, owner :: st, pc⟩ :: cs) w m) (hi : r.code[pc]? = some (.getField name)) :
    Follows n m (Eval.getField owner name w) fun v w m =>
      At G (⟨r, ls, v :: st, pc + 1⟩ :: cs) w m := by
  apply h.instr (fun v => ⟨r, ls, v :: st, pc + 1⟩ :: cs) hi
  intro verify steps
  simp only [exec, operand, attempt, Frame.pop, Frame.advance, result, Eval.getField,
    Ground.machine_heap]
  show G.Yields _ _ _ (Eval.bind _ _ w) _
  cases owner.asObject with
  | error c => exact ⟨_, rfl, rfl⟩
  | ok id =>
    simp only [Eval.bind, Eval.lift, Eval.pure]
    cases w.heap.getField id name with
    | error c => exact ⟨_, rfl, rfl⟩
    | ok v => rfl

theorem At.setField {owner v : Value} {name : String}
    (h : At G (⟨r, ls, v :: owner :: st, pc⟩ :: cs) w m)
    (hi : r.code[pc]? = some (.setField name)) :
    Follows n m (Eval.setField owner name v w) fun _ w m =>
      At G (⟨r, ls, st, pc + 1⟩ :: cs) w m := by
  apply h.instr (fun _ => ⟨r, ls, st, pc + 1⟩ :: cs) hi
  intro verify steps
  simp only [exec, operand, attempt, Frame.pop, Frame.advance, Eval.setField, Ground.machine_heap]
  show G.Yields _ _ _ (Eval.bind _ _ w) _
  cases owner.asObject with
  | error c => exact ⟨_, rfl, rfl⟩
  | ok id =>
    simp only [Eval.bind, Eval.lift, Eval.pure]
    cases w.heap.setField id name v with
    | error c => exact ⟨_, rfl, rfl⟩
    | ok heap => rfl

end Effects

end Machine

end RecordLang

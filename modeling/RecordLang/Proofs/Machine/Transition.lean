import RecordLang.Proofs.Machine.Reach

/-! # What a step can do

A step stays in its frame, enters a new one, or returns to the caller; it takes operands and puts
others in their place as the table of effects says, and leaves alone what is below them. The causes
of faults that do not hang on values come up only where the stack is too low, a routine is missing
or a slot is out of range.
-/

namespace RecordLang

/-- Causes that show a defect of the code and do not hang on the values it works on. -/
def Cause.isStructural : Cause → Bool
  | .stackUnderflow | .slotOutOfRange _ | .undefinedFunction _ | .fellOffEnd | .missingEntry _
  | .noSession | .verify _ => true
  | _ => false

def OnValues {α : Type} (r : Except Cause α) : Prop := ∀ c, r = .error c → c.isStructural = false

theorem onValues_ok {α : Type} (a : α) : OnValues (.ok a : Except Cause α) := by
  intro c h
  cases h

theorem onValues_error {α : Type} {c : Cause} (h : c.isStructural = false) :
    OnValues (.error c : Except Cause α) := by
  intro c' h'
  cases h'
  exact h

theorem Instruction.effect?_of_none {arity : String → Option Nat} {i : Instruction}
    {e : Nat × Nat} (h : i.effect? (fun _ => none) = some e) : i.effect? arity = some e := by
  cases i <;> first | exact h | cases h

theorem Instruction.unfit_isStructural (i : Instruction) (v : Value) :
    (i.unfit v).isStructural = false := by
  cases v <;> rfl

namespace BinOp

theorem onInts_onValues (op : BinOp) (x y : Int64) : OnValues (op.onInts x y) := by
  cases op <;> simp only [onInts, unfit] <;> (try split) <;>
    first | exact onValues_ok _ | exact onValues_error rfl

theorem onDoubles_onValues (op : BinOp) (x y : Double) : OnValues (op.onDoubles x y) := by
  cases op <;> first | exact onValues_ok _ | exact onValues_error rfl

theorem onStrings_onValues (op : BinOp) (x y : String) : OnValues (op.onStrings x y) := by
  cases op <;> first | exact onValues_ok _ | exact onValues_error rfl

theorem onBools_onValues (op : BinOp) (x y : Bool) : OnValues (op.onBools x y) := by
  cases op <;> first | exact onValues_ok _ | exact onValues_error rfl

theorem onOperands_onValues (op : BinOp) (a b : Value) : OnValues (op.onOperands a b) := by
  unfold onOperands
  split
  · exact onValues_error rfl
  · exact onValues_error rfl
  · exact op.onInts_onValues _ _
  · exact op.onDoubles_onValues _ _
  · exact op.onStrings_onValues _ _
  · exact op.onBools_onValues _ _
  · exact onValues_error rfl

theorem apply_onValues (op : BinOp) (a b : Value) : OnValues (op.apply a b) := by
  unfold apply
  split
  · exact onValues_ok _
  · exact onValues_ok _
  · exact op.onOperands_onValues a b

end BinOp

namespace Value

theorem asInt_onValues (v : Value) : OnValues v.asInt := by
  cases v <;> first | exact onValues_ok _ | exact onValues_error rfl

theorem asString_onValues (v : Value) : OnValues v.asString := by
  cases v <;> first | exact onValues_ok _ | exact onValues_error rfl

theorem asObject_onValues (v : Value) : OnValues v.asObject := by
  cases v <;> first | exact onValues_ok _ | exact onValues_error rfl

theorem neg_onValues (v : Value) : OnValues v.neg := by
  cases v <;> first | exact onValues_ok _ | exact onValues_error rfl

theorem not_onValues (v : Value) : OnValues v.not := by
  cases v <;> first | exact onValues_ok _ | exact onValues_error rfl

theorem length_onValues (v : Value) : OnValues v.length := by
  cases v <;> first | exact onValues_ok _ | exact onValues_error rfl

theorem charAt_onValues (s : String) (index : Int64) : OnValues (charAt s index) := by
  unfold charAt
  split
  · exact onValues_ok _
  · exact onValues_error rfl

theorem toInt_onValues (v : Value) : OnValues v.toInt := by
  unfold toInt
  split <;> (try split) <;>
    first | exact onValues_ok _ | exact onValues_error rfl |
      exact onValues_error (Instruction.unfit_isStructural _ _)

theorem toDouble_onValues (v : Value) : OnValues v.toDouble := by
  unfold toDouble
  split <;> (try split) <;>
    first | exact onValues_ok _ | exact onValues_error rfl |
      exact onValues_error (Instruction.unfit_isStructural _ _)

theorem toText_onValues (v : Value) : OnValues v.toText := by
  cases v <;> first | exact onValues_ok _ | exact onValues_error rfl

end Value

namespace Heap

theorem fields_onValues (h : Heap) (id : Nat) : OnValues (h.fields id) := by
  unfold fields
  split
  · exact onValues_error rfl
  · split
    · exact onValues_ok _
    · exact onValues_error rfl
    · exact onValues_error rfl

theorem free_onValues (h : Heap) (id : Nat) : OnValues (h.free id) := by
  unfold free
  split
  next => exact onValues_ok _
  next e he => exact onValues_error (h.fields_onValues id e he)

theorem getField_onValues (h : Heap) (id : Nat) (field : String) :
    OnValues (h.getField id field) := by
  unfold getField
  split
  next =>
    split
    · exact onValues_ok _
    · exact onValues_error rfl
  next e he => exact onValues_error (h.fields_onValues id e he)

theorem setField_onValues (h : Heap) (id : Nat) (field : String) (v : Value) :
    OnValues (h.setField id field v) := by
  unfold setField
  split
  next =>
    split
    · exact onValues_ok _
    · exact onValues_error rfl
  next e he => exact onValues_error (h.fields_onValues id e he)

end Heap

theorem Frame.load_onValues (f : Frame) (n : Nat) : OnValues (f.load n) := by
  unfold load
  split
  · exact onValues_ok _
  · exact onValues_error rfl

def Frame.advance (f : Frame) : Frame := { f with pc := f.pc + 1 }

namespace Output

theorem ask_refusal (o : Output) (r : Request) : (o.ask r).2.refusal = o.refusal := by
  unfold ask
  split <;> rfl

theorem write_refusal (o : Output) (s : String) : (o.write s).2.refusal = o.refusal := by
  unfold write
  split
  next => rfl
  next => exact o.ask_refusal _

theorem flush_refusal (o : Output) : o.flush.2.refusal = o.refusal := o.ask_refusal .flush

end Output

/-- What no step changes: the routines, limits and mode of a machine, and which requests its output
refuses. -/
structure Machine.SameSetting (m m' : Machine) : Prop where
  routines : m'.routines = m.routines
  config : m'.config = m.config
  session : m'.session = m.session
  refusal : m'.output.refusal = m.output.refusal

def Outcome.progress (pc : Nat) (i : Instruction) : Outcome → Progress
  | .next m => .running m
  | .finished v m => .stopped (.finished v) m
  | .failed c m => .stopped (.faulted (m.fault c pc (some i))) m

def Outcome.Meets (m : Machine) (N : Machine → Prop) (F : Value → Machine → Prop)
    (E : Cause → Prop) : Outcome → Prop
  | .next m' => m.SameSetting m' ∧ N m'
  | .finished v m' => m.SameSetting m' ∧ F v m'
  | .failed c m' => m.SameSetting m' ∧ E c

namespace Machine

theorem SameSetting.refl (m : Machine) : SameSetting m m := ⟨rfl, rfl, rfl, rfl⟩

theorem SameSetting.trans {m₁ m₂ m₃ : Machine} (h : SameSetting m₁ m₂) (h' : SameSetting m₂ m₃) :
    SameSetting m₁ m₃ :=
  ⟨h'.routines.trans h.routines, h'.config.trans h.config, h'.session.trans h.session,
    h'.refusal.trans h.refusal⟩

/-- The frames that an instruction can lead to from the frame `f`, whose index has moved on already,
and its callers. -/
inductive Moves (routines : Table Routine) (f : Frame) (callers : List Frame) (i : Instruction) :
    List Frame → Prop where
  | stay {f' : Frame} {pops : Nat} {vs : List Value} (hi : i ≠ .ret) (hr : f'.routine = f.routine)
      (hpc : f'.pc = f.pc ∧ i.fallsThrough = true ∨ i.target? = some f'.pc)
      (he : i.effect? (fun _ => none) = some (pops, vs.length)) (hp : pops ≤ f.stack.length)
      (hs : f'.stack = vs ++ f.stack.drop pops)
      (hl : (∀ n, i ≠ .store n) → f'.locals = f.locals) :
      Moves routines f callers i (f' :: callers)
  | enter {name : String} {r : Routine} (hi : i = .call name) (hr : routines.get? name = some r)
      (ha : r.arity ≤ f.stack.length) :
      Moves routines f callers i ({ routine := r, stack := (f.stack.take r.arity).reverse } ::
        { f with stack := f.stack.drop r.arity } :: callers)
  | leave {v : Value} {s : List Value} {caller : Frame} {rest : List Frame} (hi : i = .ret)
      (hs : f.stack = v :: s) (hc : callers = caller :: rest) :
      Moves routines f callers i (caller.push v :: rest)

/-- Why an instruction may fail: because of the values, or for a defect that is seen. -/
def Blocked (routines : Table Routine) (f : Frame) (i : Instruction) : Cause → Prop
  | .stackUnderflow => ∃ pops pushes,
      i.effect? (fun name => (routines.get? name).map Routine.arity) = some (pops, pushes) ∧
        f.stack.length < pops
  | .undefinedFunction name => i = .call name ∧ routines.get? name = none
  | .slotOutOfRange n => i = .store n ∧ maxLocals ≤ n
  | c => c.isStructural = false

theorem blocked_of_not_structural {routines : Table Routine} {f : Frame} {i : Instruction}
    {c : Cause} (h : c.isStructural = false) : Blocked routines f i c := by
  cases c <;> first | exact h | cases h

section Combinators

variable {m : Machine} {f : Frame} {N : Machine → Prop} {F : Value → Machine → Prop}
  {E : Cause → Prop}

theorem meets_attempt {α : Type} {r : Except Cause α} {k : α → Outcome}
    (hE : ∀ c, r = .error c → E c) (hk : ∀ a, r = .ok a → (k a).Meets m N F E) :
    (m.attempt f r k).Meets m N F E := by
  cases r with
  | ok a => exact hk a rfl
  | error c => exact ⟨⟨rfl, rfl, rfl, rfl⟩, hE c rfl⟩

theorem meets_operand {k : Value → Frame → Outcome} (hE : f.stack = [] → E .stackUnderflow)
    (hk : ∀ v s, f.stack = v :: s → (k v { f with stack := s }).Meets m N F E) :
    (m.operand f k).Meets m N F E := by
  apply meets_attempt
  · intro c hc
    unfold Frame.pop at hc
    split at hc
    next => cases hc
    next h => cases hc; exact hE h
  · intro p hp
    unfold Frame.pop at hp
    split at hp
    next v s h => cases hp; exact hk v s h
    next => cases hp

theorem meets_result {r : Except Cause Value} (hE : ∀ c, r = .error c → E c)
    (hN : ∀ v, r = .ok v → (m.goOn (f.push v)).Meets m N F E) : (m.result f r).Meets m N F E :=
  meets_attempt hE hN

end Combinators

abbrev Meets (m : Machine) (f : Frame) (i : Instruction) (o : Outcome) : Prop :=
  o.Meets m (fun m' => Moves m.routines f m.frames.tail i m'.frames)
    (fun v _ => i = .ret ∧ m.frames.tail = [] ∧ ∃ s, f.stack = v :: s) (Blocked m.routines f i)

variable {m : Machine} {f : Frame}

theorem blocked_stackUnderflow {i : Instruction} {pops pushes : Nat}
    (he : i.effect? (fun name => (m.routines.get? name).map Routine.arity) = some (pops, pushes))
    (h : f.stack.length < pops) : Blocked m.routines f i .stackUnderflow :=
  ⟨pops, pushes, he, h⟩

theorem meets_fail {i : Instruction} {m' : Machine} {f' : Frame} {c : Cause}
    (hm : SameSetting m m') (h : Blocked m.routines f i c) : m.Meets f i (m'.fail f' c) :=
  ⟨⟨hm.routines, hm.config, hm.session, hm.refusal⟩, h⟩

theorem meets_goOn {i : Instruction} {pops : Nat} {m' : Machine} {f' : Frame} (vs : List Value)
    (hm : SameSetting m m') (hf : m'.frames.tail = m.frames.tail) (hi : i ≠ .ret)
    (hr : f'.routine = f.routine)
    (hpc : f'.pc = f.pc ∧ i.fallsThrough = true ∨ i.target? = some f'.pc)
    (he : i.effect? (fun _ => none) = some (pops, vs.length)) (hp : pops ≤ f.stack.length)
    (hs : f'.stack = vs ++ f.stack.drop pops)
    (hl : (∀ n, i ≠ .store n) → f'.locals = f.locals) : m.Meets f i (m'.goOn f') := by
  refine ⟨⟨hm.routines, hm.config, hm.session, hm.refusal⟩, ?_⟩
  show Moves _ _ _ _ (f' :: m'.frames.tail)
  rw [hf]
  exact .stay hi hr hpc he hp hs hl

theorem meets_unary {i : Instruction} {op : Value → Except Cause Value}
    (he : i.effect? (fun _ => none) = some (1, 1))
    (he' : i.effect? (fun name => (m.routines.get? name).map Routine.arity) = some (1, 1))
    (hi : i ≠ .ret) (hfall : i.fallsThrough = true) (hop : ∀ v, OnValues (op v)) :
    m.Meets f i (m.unary f op) := by
  apply meets_operand
  · intro hs
    exact blocked_stackUnderflow he' (by simp [hs])
  · intro v s hs
    apply meets_result
    · intro c hc
      exact blocked_of_not_structural (hop v c hc)
    · intro w _
      exact meets_goOn [w] (.refl m) rfl hi rfl (.inl ⟨rfl, hfall⟩) he (by simp [hs])
        (by simp [Frame.push, hs]) fun _ => rfl

theorem meets_jumpIfFalse (t : Nat) : m.Meets f (.jumpIfFalse t) (m.exec f (.jumpIfFalse t)) := by
  rw [exec]
  apply meets_operand
  · intro hs
    exact blocked_stackUnderflow rfl (by simp [hs])
  · intro v s hs
    split
    · exact meets_goOn [] (.refl m) rfl nofun rfl (.inr rfl) rfl (by simp [hs]) (by simp [hs])
        fun _ => rfl
    · exact meets_goOn [] (.refl m) rfl nofun rfl (.inl ⟨rfl, rfl⟩) rfl (by simp [hs])
        (by simp [hs]) fun _ => rfl
    · exact meets_fail (.refl m) (blocked_of_not_structural (Instruction.unfit_isStructural _ _))

theorem meets_binary (op : BinOp) : m.Meets f (.binary op) (m.exec f (.binary op)) := by
  rw [exec]
  apply meets_operand
  · intro hs
    exact blocked_stackUnderflow rfl (by simp [hs])
  · intro b s hs
    apply meets_operand
    · intro hs'
      exact blocked_stackUnderflow rfl (by simp_all)
    · intro a s' hs'
      simp only at hs'
      subst hs'
      apply meets_result
      · intro c hc
        exact blocked_of_not_structural (op.apply_onValues a b c hc)
      · intro v _
        exact meets_goOn [v] (.refl m) rfl nofun rfl (.inl ⟨rfl, rfl⟩) rfl (by simp [hs])
          (by simp [Frame.push, hs]) fun _ => rfl

theorem meets_charAt : m.Meets f .charAt (m.exec f .charAt) := by
  rw [exec]
  apply meets_operand
  · intro hs
    exact blocked_stackUnderflow rfl (by simp [hs])
  · intro v s hs
    apply meets_attempt
    · intro c hc
      exact blocked_of_not_structural (v.asString_onValues c hc)
    · intro text _
      apply meets_operand
      · intro hs'
        exact blocked_stackUnderflow rfl (by simp_all)
      · intro w s' hs'
        simp only at hs'
        subst hs'
        apply meets_attempt
        · intro c hc
          exact blocked_of_not_structural (w.asInt_onValues c hc)
        · intro index _
          apply meets_result
          · intro c hc
            exact blocked_of_not_structural (Value.charAt_onValues text index c hc)
          · intro u _
            exact meets_goOn [u] (.refl m) rfl nofun rfl (.inl ⟨rfl, rfl⟩) rfl (by simp [hs])
              (by simp [Frame.push, hs]) fun _ => rfl

theorem meets_call (name : String) : m.Meets f (.call name) (m.exec f (.call name)) := by
  show m.Meets f (.call name) (m.call f name)
  unfold Machine.call
  split
  next hr => exact meets_fail (.refl m) ⟨rfl, hr⟩
  next r hr =>
    split
    next => exact meets_fail (.refl m) (blocked_of_not_structural rfl)
    next =>
      split
      next hlt =>
        exact meets_fail (.refl m) ⟨r.arity, 1, by simp [Instruction.effect?, hr], hlt⟩
      next hge => exact ⟨⟨rfl, rfl, rfl, rfl⟩, .enter rfl hr (Nat.le_of_not_lt hge)⟩

theorem meets_ret : m.Meets f .ret (m.exec f .ret) := by
  rw [exec]
  apply meets_operand
  · intro hs
    exact blocked_stackUnderflow rfl (by simp [hs])
  · intro v s hs
    split
    next hc => exact ⟨⟨rfl, rfl, rfl, rfl⟩, rfl, hc, s, hs⟩
    next caller rest hc => exact ⟨⟨rfl, rfl, rfl, rfl⟩, .leave rfl hs hc⟩

theorem meets_write : m.Meets f .write (m.exec f .write) := by
  rw [exec]
  apply meets_operand
  · intro hs
    exact blocked_stackUnderflow rfl (by simp [hs])
  · intro v s hs
    have hkeep := m.output.write_refusal v.text
    split
    next output hw =>
      rw [hw] at hkeep
      exact meets_goOn [] ⟨rfl, rfl, rfl, hkeep⟩ rfl nofun rfl (.inl ⟨rfl, rfl⟩) rfl (by simp [hs])
        (by simp [hs]) fun _ => rfl
    next reason output hw =>
      rw [hw] at hkeep
      exact meets_fail ⟨rfl, rfl, rfl, hkeep⟩ (blocked_of_not_structural rfl)

theorem meets_read : m.Meets f .read (m.exec f .read) := by
  show m.Meets f .read (m.read f)
  have hkeep := m.output.flush_refusal
  unfold Machine.read
  split
  next reason output hw =>
    rw [hw] at hkeep
    exact meets_fail ⟨rfl, rfl, rfl, hkeep⟩ (blocked_of_not_structural rfl)
  next output hw =>
    rw [hw] at hkeep
    split
    next line _ _ =>
      exact meets_goOn [.string line] ⟨rfl, rfl, rfl, hkeep⟩ rfl nofun rfl (.inl ⟨rfl, rfl⟩) rfl
        (Nat.zero_le _) rfl fun _ => rfl
    next => exact meets_fail ⟨rfl, rfl, rfl, hkeep⟩ (blocked_of_not_structural rfl)

theorem meets_store (n : Nat) : m.Meets f (.store n) (m.exec f (.store n)) := by
  rw [exec]
  apply meets_operand
  · intro hs
    exact blocked_stackUnderflow rfl (by simp [hs])
  · intro v s hs
    apply meets_attempt
    · intro c hc
      unfold Frame.store at hc
      split at hc
      next => cases hc
      next hn => cases hc; exact ⟨rfl, Nat.le_of_not_lt hn⟩
    · intro f' hf'
      unfold Frame.store at hf'
      split at hf'
      next =>
        cases hf'
        exact meets_goOn [] (.refl m) rfl nofun rfl (.inl ⟨rfl, rfl⟩) rfl (by simp [hs])
          (by simp [hs]) fun h => absurd rfl (h n)
      next => cases hf'

theorem meets_free : m.Meets f .free (m.exec f .free) := by
  rw [exec]
  apply meets_operand
  · intro hs
    exact blocked_stackUnderflow rfl (by simp [hs])
  · intro v s hs
    apply meets_attempt
    · intro c hc
      exact blocked_of_not_structural (v.asObject_onValues c hc)
    · intro id _
      apply meets_attempt
      · intro c hc
        exact blocked_of_not_structural (m.heap.free_onValues id c hc)
      · intro heap _
        exact meets_goOn [] ⟨rfl, rfl, rfl, rfl⟩ rfl nofun rfl (.inl ⟨rfl, rfl⟩) rfl (by simp [hs])
          (by simp [hs]) fun _ => rfl

theorem meets_getField (name : String) :
    m.Meets f (.getField name) (m.exec f (.getField name)) := by
  rw [exec]
  apply meets_operand
  · intro hs
    exact blocked_stackUnderflow rfl (by simp [hs])
  · intro v s hs
    apply meets_attempt
    · intro c hc
      exact blocked_of_not_structural (v.asObject_onValues c hc)
    · intro id _
      apply meets_result
      · intro c hc
        exact blocked_of_not_structural (m.heap.getField_onValues id name c hc)
      · intro w _
        exact meets_goOn [w] (.refl m) rfl nofun rfl (.inl ⟨rfl, rfl⟩) rfl (by simp [hs])
          (by simp [Frame.push, hs]) fun _ => rfl

theorem meets_setField (name : String) :
    m.Meets f (.setField name) (m.exec f (.setField name)) := by
  rw [exec]
  apply meets_operand
  · intro hs
    exact blocked_stackUnderflow rfl (by simp [hs])
  · intro w s hs
    apply meets_operand
    · intro hs'
      exact blocked_stackUnderflow rfl (by simp_all)
    · intro v s' hs'
      simp only at hs'
      subst hs'
      apply meets_attempt
      · intro c hc
        exact blocked_of_not_structural (v.asObject_onValues c hc)
      · intro id _
        apply meets_attempt
        · intro c hc
          exact blocked_of_not_structural (m.heap.setField_onValues id name w c hc)
        · intro heap _
          exact meets_goOn [] ⟨rfl, rfl, rfl, rfl⟩ rfl nofun rfl (.inl ⟨rfl, rfl⟩) rfl
            (by simp [hs]) (by simp [hs]) fun _ => rfl

theorem meets_swap : m.Meets f .swap (m.exec f .swap) := by
  rw [exec]
  apply meets_operand
  · intro hs
    exact blocked_stackUnderflow rfl (by simp [hs])
  · intro b s hs
    apply meets_operand
    · intro hs'
      exact blocked_stackUnderflow rfl (by simp_all)
    · intro a s' hs'
      simp only at hs'
      subst hs'
      exact meets_goOn [a, b] (.refl m) rfl nofun rfl (.inl ⟨rfl, rfl⟩) rfl (by simp [hs])
        (by simp [Frame.push, hs]) fun _ => rfl

theorem exec_meets (m : Machine) (f : Frame) (i : Instruction) : m.Meets f i (m.exec f i) := by
  cases i with
  | push v =>
    exact meets_goOn [v] (.refl m) rfl nofun rfl (.inl ⟨rfl, rfl⟩) rfl (Nat.zero_le _)
      (by simp [Frame.push]) fun _ => rfl
  | pop =>
    rw [exec]
    apply meets_operand
    · intro hs
      exact blocked_stackUnderflow rfl (by simp [hs])
    · intro v s hs
      exact meets_goOn [] (.refl m) rfl nofun rfl (.inl ⟨rfl, rfl⟩) rfl (by simp [hs])
        (by simp [hs]) fun _ => rfl
  | dup =>
    rw [exec]
    apply meets_operand
    · intro hs
      exact blocked_stackUnderflow rfl (by simp [hs])
    · intro v s hs
      exact meets_goOn [v, v] (.refl m) rfl nofun rfl (.inl ⟨rfl, rfl⟩) rfl (by simp [hs])
        (by simp [Frame.push, hs]) fun _ => rfl
  | swap => exact meets_swap
  | load n =>
    rw [exec]
    apply meets_result
    · intro c hc
      exact blocked_of_not_structural (f.load_onValues n c hc)
    · intro v _
      exact meets_goOn [v] (.refl m) rfl nofun rfl (.inl ⟨rfl, rfl⟩) rfl (Nat.zero_le _)
        (by simp [Frame.push]) fun _ => rfl
  | store n => exact meets_store n
  | binary op => exact meets_binary op
  | neg => exact meets_unary rfl rfl nofun rfl Value.neg_onValues
  | not => exact meets_unary rfl rfl nofun rfl Value.not_onValues
  | jump t =>
    exact meets_goOn [] (.refl m) rfl nofun rfl (.inr rfl) rfl (Nat.zero_le _) rfl fun _ => rfl
  | jumpIfFalse t => exact meets_jumpIfFalse t
  | call name => exact meets_call name
  | ret => exact meets_ret
  | write => exact meets_write
  | read => exact meets_read
  | length => exact meets_unary rfl rfl nofun rfl Value.length_onValues
  | charAt => exact meets_charAt
  | toInt => exact meets_unary rfl rfl nofun rfl Value.toInt_onValues
  | toDouble => exact meets_unary rfl rfl nofun rfl Value.toDouble_onValues
  | toText => exact meets_unary rfl rfl nofun rfl Value.toText_onValues
  | alloc fields =>
    exact meets_goOn [.object (m.heap.alloc fields).1] ⟨rfl, rfl, rfl, rfl⟩ rfl nofun rfl
      (.inl ⟨rfl, rfl⟩) rfl (Nat.zero_le _) rfl fun _ => rfl
  | free => exact meets_free
  | getField name => exact meets_getField name
  | setField name => exact meets_setField name
  | nop =>
    exact meets_goOn [] (.refl m) rfl nofun rfl (.inl ⟨rfl, rfl⟩) rfl (Nat.zero_le _) rfl
      fun _ => rfl

theorem dispatch_meets (m : Machine) (f : Frame) (i : Instruction) :
    m.Meets f i (m.dispatch f i) := by
  unfold dispatch
  split
  next => exact meets_fail (.refl m) (blocked_of_not_structural rfl)
  next => exact m.exec_meets f i

/-- The machine when the next instruction of the frame `f` has been fetched and counted. -/
def counted (m : Machine) (f : Frame) (callers : List Frame) : Machine :=
  { m with frames := f.advance :: callers, steps := m.steps + 1 }

theorem step_eq {m : Machine} {f : Frame} {callers : List Frame} {i : Instruction}
    (hf : m.frames = f :: callers) (hi : f.instr? = some i) :
    m.step = ((m.counted f callers).dispatch f.advance i).progress f.pc i := by
  unfold Machine.step
  simp only [hf, hi]
  rfl

theorem SameSetting.of_counted {m m' : Machine} {f : Frame} {callers : List Frame}
    (h : SameSetting (m.counted f callers) m') : SameSetting m m' :=
  ⟨h.routines, h.config, h.session, h.refusal⟩

theorem step_running {m m' : Machine} (h : m.step = .running m') :
    ∃ f callers i, m.frames = f :: callers ∧ f.instr? = some i ∧ SameSetting m m' ∧
      Moves m.routines f.advance callers i m'.frames := by
  cases hf : m.frames with
  | nil => simp [Machine.step, hf] at h
  | cons f callers =>
    cases hi : f.instr? with
    | none =>
      simp only [Machine.step, hf, hi] at h
      split at h <;> cases h
    | some i =>
      rw [step_eq hf hi] at h
      have hmeets := (m.counted f callers).dispatch_meets f.advance i
      cases hd : (m.counted f callers).dispatch f.advance i with
      | next m₁ =>
        rw [hd] at h hmeets
        cases h
        obtain ⟨hset, hmoves⟩ := hmeets
        exact ⟨f, callers, i, rfl, hi, hset.of_counted, hmoves⟩
      | finished v m₁ =>
        rw [hd] at h
        cases h
      | failed c m₁ =>
        rw [hd] at h
        cases h

theorem Reaches.sameSetting {m m' : Machine} (h : Reaches m m') : SameSetting m m' := by
  apply h.preserves (P := SameSetting m)
  · intro m₁ m₂ h₁ hs
    obtain ⟨_, _, _, _, _, h₂, _⟩ := step_running hs
    exact h₁.trans h₂
  · exact .refl m

inductive Halts (m : Machine) : Exit → Prop where
  | idle (hf : m.frames = []) : Halts m (.faulted (.detached .noSession))
  | paused {f : Frame} (hf : m.frames = [f]) (hi : f.instr? = none) (hs : m.session = true) :
      Halts m .paused
  | fellOff {f : Frame} {callers : List Frame} (hf : m.frames = f :: callers)
      (hi : f.instr? = none) : Halts m (.faulted (m.fault .fellOffEnd f.pc none))
  | finished {f : Frame} {v : Value} {s : List Value} (hf : m.frames = [f])
      (hi : f.instr? = some .ret) (hs : f.stack = v :: s) : Halts m (.finished v)
  | failed {f : Frame} {callers : List Frame} {i : Instruction} {e : Fault}
      (hf : m.frames = f :: callers) (hi : f.instr? = some i)
      (hc : Blocked m.routines f.advance i e.cause) : Halts m (.faulted e)

theorem step_stopped {m m' : Machine} {exit : Exit} (h : m.step = .stopped exit m') :
    Halts m exit ∧ SameSetting m m' := by
  cases hf : m.frames with
  | nil =>
    simp only [Machine.step, hf] at h
    cases h
    exact ⟨.idle hf, .refl m⟩
  | cons f callers =>
    cases hi : f.instr? with
    | none =>
      simp only [Machine.step, hf, hi] at h
      split at h
      next hs =>
        cases h
        simp only [Bool.and_eq_true, List.isEmpty_iff] at hs
        exact ⟨.paused (hs.2 ▸ hf) hi hs.1, .refl m⟩
      next =>
        cases h
        exact ⟨.fellOff hf hi, .refl m⟩
    | some i =>
      rw [step_eq hf hi] at h
      have hmeets := (m.counted f callers).dispatch_meets f.advance i
      cases hd : (m.counted f callers).dispatch f.advance i with
      | next m₁ =>
        rw [hd] at h
        cases h
      | finished v m₁ =>
        rw [hd] at h hmeets
        cases h
        obtain ⟨hset, rfl, hc, s, hs⟩ := hmeets
        obtain rfl : callers = [] := hc
        exact ⟨.finished hf hi hs, hset.of_counted⟩
      | failed c m₁ =>
        rw [hd] at h hmeets
        cases h
        obtain ⟨hset, hblocked⟩ := hmeets
        exact ⟨.failed hf hi hblocked, hset.of_counted⟩

theorem runFor_sameSetting {m m' : Machine} {n : Nat} {exit : Exit}
    (h : m.runFor n = some (exit, m')) : SameSetting m m' := by
  obtain ⟨k, m₁, _, hsteps, hstop⟩ := runFor_eq_some_iff.mp h
  exact (Reaches.sameSetting ⟨k, hsteps⟩).trans (step_stopped hstop).2

theorem conclude_of_accepting {m : Machine} (h : ∀ n r, m.output.refusal n r = none) (exit : Exit) :
    m.conclude exit = (exit.value, { m with output := m.output.tick }) := by
  simp only [conclude, flush, Output.flush, Output.ask, h]

end Machine

end RecordLang

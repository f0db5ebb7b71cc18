import RecordLang.Proofs.Machine.Transition

/-! # Machines that run in parallel

Two machines run in parallel if the second has the state of the first with more code behind that of
its outermost frame. As long as the first does not come to the end of its own code, each step of one
is a step of the other.
-/

namespace RecordLang

namespace Output

structure Alike (o o' : Output) : Prop where
  text : o'.text = o.text
  accepts : ∀ n r, o.refusal n r = none
  accepts' : ∀ n r, o'.refusal n r = none

variable {o o' : Output}

theorem Alike.symm (h : Alike o o') : Alike o' o := ⟨h.text.symm, h.accepts', h.accepts⟩

theorem Alike.trans {o'' : Output} (h : Alike o o') (h' : Alike o' o'') : Alike o o'' :=
  ⟨h'.text.trans h.text, h.accepts, h'.accepts'⟩

theorem flush_of_accepts (h : ∀ n r, o.refusal n r = none) : o.flush = (none, o.tick) := by
  simp only [flush, ask, h]

theorem Alike.tick (h : Alike o o') : Alike o.tick o'.tick := ⟨h.text, h.accepts, h.accepts'⟩

theorem alike_tick (h : ∀ n r, o.refusal n r = none) : Alike o o.tick := ⟨rfl, h, h⟩

theorem Alike.write (h : Alike o o') (s : String) :
    ∃ o₁ o₁', o.write s = (none, o₁) ∧ o'.write s = (none, o₁') ∧ Alike o₁ o₁' := by
  unfold Output.write
  split
  · exact ⟨o, o', rfl, rfl, h⟩
  · simp only [ask, h.accepts, h.accepts']
    refine ⟨_, _, rfl, rfl, ?_, h.accepts, h.accepts'⟩
    rw [h.text]

end Output

/-- The frame with more code if it is the outermost one, which has no callers. -/
def Frame.fed (code : Array Instruction) (callers : List Frame) (f : Frame) : Frame :=
  if callers.isEmpty then f.append code else f

def feed (code : Array Instruction) : List Frame → List Frame
  | [] => []
  | f :: callers => f.fed code callers :: feed code callers

namespace Frame

variable (code : Array Instruction) (callers : List Frame) (f : Frame)

theorem fed_of_callers {callers : List Frame} (h : callers ≠ []) : f.fed code callers = f := by
  rw [fed, if_neg (by simpa using h)]

@[simp]
theorem fed_nil : f.fed code [] = f.append code := rfl

@[simp]
theorem fed_stack : (f.fed code callers).stack = f.stack := by
  unfold fed
  split <;> rfl

@[simp]
theorem fed_locals : (f.fed code callers).locals = f.locals := by
  unfold fed
  split <;> rfl

@[simp]
theorem fed_pc : (f.fed code callers).pc = f.pc := by
  unfold fed
  split <;> rfl

@[simp]
theorem fed_name : (f.fed code callers).name = f.name := by
  unfold fed
  split <;> rfl

theorem fed_push (v : Value) : (f.fed code callers).push v = (f.push v).fed code callers := by
  unfold fed
  split <;> rfl

theorem fed_withStack (s : List Value) :
    { f.fed code callers with stack := s } = { f with stack := s }.fed code callers := by
  unfold fed
  split <;> rfl

theorem fed_jump (t : Nat) :
    { f.fed code callers with pc := t } = { f with pc := t }.fed code callers := by
  unfold fed
  split <;> rfl

theorem fed_advance : (f.fed code callers).advance = f.advance.fed code callers := by
  rw [advance, fed_pc, fed_jump, advance]

theorem fed_pop :
    (f.fed code callers).pop = f.pop.map fun (v, g) => (v, g.fed code callers) := by
  unfold pop
  rw [fed_stack]
  cases f.stack with
  | nil => rfl
  | cons v s => exact congrArg (fun g => Except.ok (v, g)) (fed_withStack code callers f s)

theorem fed_load (n : Nat) : (f.fed code callers).load n = f.load n := by
  rw [load, fed_locals, load]

theorem fed_store (n : Nat) (v : Value) :
    (f.fed code callers).store n v = (f.store n v).map (Frame.fed code callers) := by
  unfold store
  rw [fed_locals]
  split
  · unfold fed
    split <;> rfl
  · rfl

end Frame

@[simp]
theorem length_feed (code : Array Instruction) (fs : List Frame) :
    (feed code fs).length = fs.length := by
  induction fs with
  | nil => rfl
  | cons f fs ih => simp [feed, ih]

theorem map_name_feed (code : Array Instruction) (fs : List Frame) :
    (feed code fs).map Frame.name = fs.map Frame.name := by
  induction fs with
  | nil => rfl
  | cons f fs ih => simp [feed, ih]

theorem feed_empty (fs : List Frame) : feed #[] fs = fs := by
  induction fs with
  | nil => rfl
  | cons f fs ih =>
    rw [feed, ih, Frame.fed, Frame.append, Array.append_empty, ite_self]

inductive Outcome.Rel (S : Machine → Machine → Prop) : Outcome → Outcome → Prop where
  | next {m m' : Machine} (h : S m m') : Rel S (.next m) (.next m')
  | finished {m m' : Machine} (v : Value) (h : S m m') : Rel S (.finished v m) (.finished v m')
  | failed {m m' : Machine} (c : Cause) (h : S m m') : Rel S (.failed c m) (.failed c m')

inductive Progress.Rel (S : Machine → Machine → Prop) : Progress → Progress → Prop where
  | running {m m' : Machine} (h : S m m') : Rel S (.running m) (.running m')
  | stopped {m m' : Machine} (exit : Exit) (h : S m m') : Rel S (.stopped exit m) (.stopped exit m')

namespace Machine

/-- The second machine has the state of the first, with more code in its outermost frame. -/
structure Parallel (code : Array Instruction) (m m' : Machine) : Prop where
  frames : m'.frames = feed code m.frames
  routines : m'.routines = m.routines
  maxDepth : m'.config.maxDepth = m.config.maxDepth
  heap : m'.heap = m.heap
  input : m'.input = m.input
  output : m.output.Alike m'.output
  steps : m'.steps = m.steps
  session : m'.session = m.session

variable {code : Array Instruction} {m m' : Machine} {f : Frame} {α : Type}

namespace Parallel

theorem tail (h : Parallel code m m') : m'.frames.tail = feed code m.frames.tail := by
  rw [h.frames]
  cases m.frames <;> rfl

theorem withFrames (h : Parallel code m m') (fs : List Frame) :
    Parallel code { m with frames := fs } { m' with frames := feed code fs } :=
  ⟨rfl, h.routines, h.maxDepth, h.heap, h.input, h.output, h.steps, h.session⟩

theorem withHeap (h : Parallel code m m') (heap : Heap) :
    Parallel code { m with heap } { m' with heap } :=
  ⟨h.frames, h.routines, h.maxDepth, rfl, h.input, h.output, h.steps, h.session⟩

theorem withInput (h : Parallel code m m') (input : List UInt8) :
    Parallel code { m with input } { m' with input } :=
  ⟨h.frames, h.routines, h.maxDepth, h.heap, rfl, h.output, h.steps, h.session⟩

theorem withOutput (h : Parallel code m m') {output output' : Output}
    (ho : output.Alike output') :
    Parallel code { m with output } { m' with output := output' } :=
  ⟨h.frames, h.routines, h.maxDepth, h.heap, h.input, ho, h.steps, h.session⟩

theorem withFrame (h : Parallel code m m') (f : Frame) :
    Parallel code (m.withFrame f) (m'.withFrame (f.fed code m.frames.tail)) := by
  have hframes := h.withFrames (f :: m.frames.tail)
  rwa [feed, ← h.tail] at hframes

theorem goOn (h : Parallel code m m') (f : Frame) :
    Outcome.Rel (Parallel code) (m.goOn f) (m'.goOn (f.fed code m.frames.tail)) :=
  .next (h.withFrame f)

theorem fail (h : Parallel code m m') (f : Frame) (c : Cause) :
    Outcome.Rel (Parallel code) (m.fail f c) (m'.fail (f.fed code m.frames.tail) c) :=
  .failed c (h.withFrame f)

theorem attempt (h : Parallel code m m') {r : Except Cause α} {k k' : α → Outcome}
    (hk : ∀ a, Outcome.Rel (Parallel code) (k a) (k' a)) :
    Outcome.Rel (Parallel code) (m.attempt f r k)
      (m'.attempt (f.fed code m.frames.tail) r k') := by
  cases r with
  | ok a => exact hk a
  | error c => exact h.fail f c

theorem operand (h : Parallel code m m') {k k' : Value → Frame → Outcome}
    (hk : ∀ v f, Outcome.Rel (Parallel code) (k v f) (k' v (f.fed code m.frames.tail))) :
    Outcome.Rel (Parallel code) (m.operand f k)
      (m'.operand (f.fed code m.frames.tail) k') := by
  unfold Machine.operand
  rw [Frame.fed_pop]
  cases f.pop with
  | ok p => exact hk p.1 p.2
  | error c => exact h.fail f c

theorem result (h : Parallel code m m') (r : Except Cause Value) :
    Outcome.Rel (Parallel code) (m.result f r) (m'.result (f.fed code m.frames.tail) r) := by
  apply h.attempt
  intro v
  rw [Frame.fed_push]
  exact h.goOn (f.push v)

theorem unary (h : Parallel code m m') (op : Value → Except Cause Value) :
    Outcome.Rel (Parallel code) (m.unary f op) (m'.unary (f.fed code m.frames.tail) op) :=
  h.operand fun v _ => h.result (op v)

theorem call (h : Parallel code m m') (name : String) :
    Outcome.Rel (Parallel code) (m.call f name) (m'.call (f.fed code m.frames.tail) name) := by
  have hdepth : m'.depth = m.depth := by rw [depth, h.frames, length_feed, depth]
  have hget : m'.routines.get? name = m.routines.get? name := by rw [h.routines]
  unfold Machine.call
  rw [hget, h.maxDepth, hdepth, Frame.fed_stack]
  split
  next => exact h.fail f _
  next r _ =>
    split
    next => exact h.fail f _
    next =>
      split
      next => exact h.fail f _
      next =>
        rw [Frame.fed_withStack, h.tail]
        exact .next (h.withFrames ({ routine := r, stack := (f.stack.take r.arity).reverse } ::
          { f with stack := f.stack.drop r.arity } :: m.frames.tail))

theorem ret (h : Parallel code m m') :
    Outcome.Rel (Parallel code) (m.ret f) (m'.ret (f.fed code m.frames.tail)) := by
  apply h.operand
  intro v _
  rw [h.tail]
  cases m.frames.tail with
  | nil => exact .finished v (h.withFrames [])
  | cons caller rest =>
    rw [feed]
    simp only [Frame.fed_push]
    exact .next (h.withFrames (caller.push v :: rest))

theorem write (h : Parallel code m m') :
    Outcome.Rel (Parallel code) (m.write f) (m'.write (f.fed code m.frames.tail)) := by
  apply h.operand
  intro v f
  obtain ⟨o, o', ho, ho', halike⟩ := h.output.write v.text
  rw [ho, ho']
  exact (h.withOutput halike).goOn f

theorem read (h : Parallel code m m') :
    Outcome.Rel (Parallel code) (m.read f) (m'.read (f.fed code m.frames.tail)) := by
  unfold Machine.read
  rw [Output.flush_of_accepts h.output.accepts, Output.flush_of_accepts h.output.accepts', h.input]
  have hflushed := h.withOutput h.output.tick
  simp only
  split
  next line input _ =>
    rw [Frame.fed_push]
    exact (hflushed.withInput input).goOn (f.push (.string line))
  next input _ => exact (hflushed.withInput input).fail f _

theorem exec (h : Parallel code m m') (i : Instruction) :
    Outcome.Rel (Parallel code) (m.exec f i) (m'.exec (f.fed code m.frames.tail) i) := by
  cases i with
  | call name => exact h.call name
  | ret => exact h.ret
  | write => exact h.write
  | read => exact h.read
  | neg | not | length | toInt | toDouble | toText => exact h.unary _
  | push v =>
    rw [Machine.exec, Machine.exec, Frame.fed_push]
    exact h.goOn _
  | nop => exact h.goOn f
  | pop =>
    rw [Machine.exec, Machine.exec]
    exact h.operand fun _ f => h.goOn f
  | dup =>
    rw [Machine.exec, Machine.exec]
    apply h.operand
    intro v f
    rw [Frame.fed_push, Frame.fed_push]
    exact h.goOn _
  | swap =>
    rw [Machine.exec, Machine.exec]
    apply h.operand
    intro b f
    apply h.operand
    intro a f
    rw [Frame.fed_push, Frame.fed_push]
    exact h.goOn _
  | load n =>
    rw [Machine.exec, Machine.exec, Frame.fed_load]
    exact h.result _
  | store n =>
    rw [Machine.exec, Machine.exec]
    apply h.operand
    intro v f
    rw [Frame.fed_store]
    cases f.store n v with
    | ok g => exact h.goOn g
    | error c => exact h.fail f c
  | binary op =>
    rw [Machine.exec, Machine.exec]
    exact h.operand fun _ _ => h.operand fun _ _ => h.result _
  | jump t =>
    rw [Machine.exec, Machine.exec, Frame.fed_jump]
    exact h.goOn _
  | jumpIfFalse t =>
    rw [Machine.exec, Machine.exec]
    apply h.operand
    intro v f
    split
    · rw [Frame.fed_jump]
      exact h.goOn _
    · exact h.goOn f
    · exact h.fail f _
  | charAt =>
    rw [Machine.exec, Machine.exec]
    exact h.operand fun _ _ => h.attempt fun _ => h.operand fun _ _ => h.attempt fun _ => h.result _
  | alloc fields =>
    rw [Machine.exec, Machine.exec, h.heap]
    simp only [Frame.fed_push]
    exact (h.withHeap _).goOn _
  | free =>
    rw [Machine.exec, Machine.exec]
    apply h.operand
    intro v f
    apply h.attempt
    intro id
    rw [h.heap]
    apply h.attempt
    intro heap
    exact (h.withHeap heap).goOn f
  | getField name =>
    rw [Machine.exec, Machine.exec]
    apply h.operand
    intro v f
    apply h.attempt
    intro id
    rw [h.heap]
    exact h.result _
  | setField name =>
    rw [Machine.exec, Machine.exec]
    apply h.operand
    intro w f
    apply h.operand
    intro v f
    apply h.attempt
    intro id
    rw [h.heap]
    apply h.attempt
    intro heap
    exact (h.withHeap heap).goOn f

theorem dispatch (h : Parallel code m m') (hlimit : m'.config.maxSteps = m.config.maxSteps)
    (i : Instruction) :
    Outcome.Rel (Parallel code) (m.dispatch f i) (m'.dispatch (f.fed code m.frames.tail) i) := by
  unfold Machine.dispatch
  rw [hlimit, h.steps]
  split
  · exact h.fail f _
  · exact h.exec i

theorem fault_eq (h : Parallel code m m') (c : Cause) (pc : Nat) (i : Option Instruction) :
    m'.fault c pc i = m.fault c pc i := by
  have hnames : m'.frames.map Frame.name = m.frames.map Frame.name := by
    rw [h.frames, map_name_feed]
  have hhead : m'.frames.head?.map Frame.name = m.frames.head?.map Frame.name := by
    rw [← List.head?_map, ← List.head?_map, hnames]
  rw [Machine.fault, Machine.fault, calls, calls, hnames, hhead]

theorem progress {o o' : Outcome} (h : o.Rel (Parallel code) o') (pc : Nat) (i : Instruction) :
    (o.progress pc i).Rel (Parallel code) (o'.progress pc i) := by
  cases h with
  | next h => exact .running h
  | finished v h => exact .stopped _ h
  | failed c h =>
    rw [Outcome.progress, Outcome.progress, h.fault_eq]
    exact .stopped _ h

theorem counted (h : Parallel code m m') (f : Frame) (callers : List Frame) :
    Parallel code (m.counted f callers)
      (m'.counted (f.fed code callers) (feed code callers)) where
  frames := congrArg (· :: feed code callers) (Frame.fed_advance code callers f)
  routines := h.routines
  maxDepth := h.maxDepth
  heap := h.heap
  input := h.input
  output := h.output
  steps := congrArg (· + 1) h.steps
  session := h.session

/-- Machines that run in parallel and have the same instruction before them take the same step. -/
theorem step (h : Parallel code m m') (hlimit : m'.config.maxSteps = m.config.maxSteps)
    (hinstr : ∀ f callers, m.frames = f :: callers → (f.fed code callers).instr? = f.instr?) :
    m.step.Rel (Parallel code) m'.step := by
  cases hf : m.frames with
  | nil =>
    have hf' : m'.frames = [] := by rw [h.frames, hf, feed]
    simp only [Machine.step, hf, hf']
    exact .stopped _ h
  | cons f callers =>
    have hf' : m'.frames = f.fed code callers :: feed code callers := by rw [h.frames, hf, feed]
    have hi' := hinstr f callers hf
    cases hi : f.instr? with
    | none =>
      rw [hi] at hi'
      have hempty : (feed code callers).isEmpty = callers.isEmpty := by cases callers <;> rfl
      simp only [Machine.step, hf, hf', hi, hi', h.session, hempty, Frame.fed_pc, h.fault_eq]
      split
      · exact .stopped _ h
      · exact .stopped _ h
    | some i =>
      rw [hi] at hi'
      rw [step_eq hf hi, step_eq hf' hi', Frame.fed_pc]
      apply progress
      rw [Frame.fed_advance]
      exact (h.counted f callers).dispatch hlimit i

end Parallel

theorem instr?_fed_of_some {i : Instruction} (callers : List Frame) (h : f.instr? = some i) :
    (f.fed code callers).instr? = some i := by
  unfold Frame.fed
  split
  · obtain ⟨hlt, rfl⟩ := Array.getElem?_eq_some_iff.mp h
    simp only [Frame.instr?, Frame.append]
    rw [Array.getElem?_append_left hlt, Array.getElem?_eq_getElem hlt]
  · exact h

namespace Parallel

variable {m₁ : Machine} {n : Nat} {exit : Exit}

theorem running (h : Parallel code m m') (hc : m'.config = m.config) (hs : m.step = .running m₁) :
    ∃ m₁', m'.step = .running m₁' ∧ Parallel code m₁ m₁' ∧ m₁'.config = m₁.config := by
  obtain ⟨f, callers, i, hf, hi, hset, _⟩ := step_running hs
  have hrel := h.step (congrArg Config.maxSteps hc) (by
    intro f' callers' hf'
    obtain ⟨rfl, rfl⟩ := List.cons.inj (hf.symm.trans hf')
    rw [hi, instr?_fed_of_some callers hi])
  rw [hs] at hrel
  generalize hs' : m'.step = p at hrel
  cases hrel with
  | @running _ m₁' h₁ =>
    obtain ⟨_, _, _, _, _, hset', _⟩ := step_running hs'
    exact ⟨m₁', rfl, h₁, by rw [hset'.config, hc, hset.config]⟩

theorem steps_of (h : Parallel code m m') (hc : m'.config = m.config) (hs : Steps n m m₁) :
    ∃ m₁', Steps n m' m₁' ∧ Parallel code m₁ m₁' ∧ m₁'.config = m₁.config := by
  induction hs generalizing m' with
  | refl => exact ⟨m', .refl m', h, hc⟩
  | cons hstep _ ih =>
    obtain ⟨m₂', hstep', h₂, hc₂⟩ := h.running hc hstep
    obtain ⟨m₁', hs', h₁, hc₁⟩ := ih h₂ hc₂
    exact ⟨m₁', .cons hstep' hs', h₁, hc₁⟩

/-- A session stops alike with more code, unless it has come to the end of its own. -/
theorem stopped (h : Parallel code m m') (hc : m'.config = m.config) (hlive : m.session = true)
    (hs : m.step = .stopped exit m₁) (hexit : exit ≠ .paused) :
    ∃ m₁', m'.step = .stopped exit m₁' ∧ Parallel code m₁ m₁' ∧ m₁'.config = m₁.config := by
  have hrel := h.step (congrArg Config.maxSteps hc) (by
    intro f callers hf
    cases hi : f.instr? with
    | some i => exact instr?_fed_of_some callers hi
    | none =>
      have hcallers : callers ≠ [] := by
        rintro rfl
        simp only [Machine.step, hf, hi, hlive, List.isEmpty_nil, Bool.and_self, if_true] at hs
        cases hs
        exact hexit rfl
      rw [Frame.fed_of_callers code f hcallers, hi])
  rw [hs] at hrel
  generalize hs' : m'.step = p at hrel
  cases hrel with
  | @stopped _ m₁' _ h₁ =>
    exact ⟨m₁', rfl, h₁, by rw [(step_stopped hs').2.config, hc, (step_stopped hs).2.config]⟩

end Parallel

section NoCode

theorem Parallel.symm (h : Parallel #[] m m') : Parallel #[] m' m where
  frames := by rw [feed_empty, h.frames, feed_empty]
  routines := h.routines.symm
  maxDepth := h.maxDepth.symm
  heap := h.heap.symm
  input := h.input.symm
  output := h.output.symm
  steps := h.steps.symm
  session := h.session.symm

theorem Parallel.runFor {n : Nat} {exit : Exit} {m₁ : Machine} (h : Parallel #[] m m')
    (hc : m'.config = m.config) (hr : m.runFor n = some (exit, m₁)) :
    ∃ m₁', m'.runFor n = some (exit, m₁') ∧ Parallel #[] m₁ m₁' ∧ m₁'.config = m₁.config := by
  obtain ⟨k, m₂, hk, hsteps, hstop⟩ := runFor_eq_some_iff.mp hr
  obtain ⟨m₂', hsteps', h₂, hc₂⟩ := h.steps_of hc hsteps
  have hrel := h₂.step (congrArg Config.maxSteps hc₂) (by
    intro f callers _
    rw [Frame.fed, Frame.append, Array.append_empty, ite_self])
  rw [hstop] at hrel
  generalize hstop' : m₂'.step = p at hrel
  cases hrel with
  | @stopped _ m₁' _ h₁ =>
    have hc₁ : m₁'.config = m₁.config := by
      rw [(step_stopped hstop').2.config, hc₂, (step_stopped hstop).2.config]
    exact ⟨m₁', runFor_eq_some_iff.mpr ⟨k, m₂', hk, hsteps', hstop'⟩, h₁, hc₁⟩

end NoCode

end Machine

end RecordLang

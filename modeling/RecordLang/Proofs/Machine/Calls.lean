import RecordLang.Proofs.Balance.Registry
import RecordLang.Proofs.Machine.Sessions

/-! # Chains of calls

Each frame but the innermost one stands behind the call of the frame that it waits for, back to the
frame with which the run began. A fault names the frames that were there and the instruction that
the innermost one was at.
-/

namespace RecordLang

/-- If the outcome is a failure, the innermost frame still runs the routine `r`, and its callers are
as they were. -/
def Outcome.FailsIn (r : Routine) (callers : List Frame) : Outcome → Prop
  | .failed _ m => ∃ f, m.frames = f :: callers ∧ f.routine = r
  | _ => True

namespace Machine

section Failures

variable {α : Type} {m : Machine} {f : Frame} {r : Routine}

theorem failsIn_fail (hf : f.routine = r) (c : Cause) : (m.fail f c).FailsIn r m.frames.tail :=
  ⟨f, rfl, hf⟩

theorem failsIn_attempt (hf : f.routine = r) {x : Except Cause α} {k : α → Outcome}
    (hk : ∀ a, (k a).FailsIn r m.frames.tail) : (m.attempt f x k).FailsIn r m.frames.tail := by
  cases x with
  | ok a => exact hk a
  | error c => exact failsIn_fail hf c

theorem failsIn_operand (hf : f.routine = r) {k : Value → Frame → Outcome}
    (hk : ∀ v f', f'.routine = r → (k v f').FailsIn r m.frames.tail) :
    (m.operand f k).FailsIn r m.frames.tail := by
  unfold operand Frame.pop
  split
  next v s _ => exact hk v { f with stack := s } hf
  next => exact failsIn_fail hf _

theorem failsIn_result (hf : f.routine = r) (x : Except Cause Value) :
    (m.result f x).FailsIn r m.frames.tail :=
  failsIn_attempt hf fun _ => trivial

theorem failsIn_unary (hf : f.routine = r) (op : Value → Except Cause Value) :
    (m.unary f op).FailsIn r m.frames.tail :=
  failsIn_operand hf fun _ _ hf => failsIn_result hf _

theorem failsIn_call (name : String) : (m.call f name).FailsIn f.routine m.frames.tail := by
  unfold call
  split
  next => exact failsIn_fail rfl _
  next =>
    split
    next => exact failsIn_fail rfl _
    next =>
      split
      next => exact failsIn_fail rfl _
      next => trivial

theorem failsIn_read : (m.read f).FailsIn f.routine m.frames.tail := by
  unfold read
  split
  next => exact ⟨f, rfl, rfl⟩
  next =>
    split
    next => trivial
    next => exact ⟨f, rfl, rfl⟩

theorem exec_failsIn (m : Machine) (f : Frame) (i : Instruction) :
    (m.exec f i).FailsIn f.routine m.frames.tail := by
  cases i with
  | push | jump | alloc | nop => trivial
  | neg | not | length | toInt | toDouble | toText => exact failsIn_unary rfl _
  | load n => exact failsIn_result rfl _
  | call name => exact failsIn_call name
  | read => exact failsIn_read
  | pop | dup =>
    rw [exec]
    exact failsIn_operand rfl fun _ _ _ => trivial
  | swap =>
    rw [exec]
    exact failsIn_operand rfl fun _ _ hf => failsIn_operand hf fun _ _ _ => trivial
  | store n =>
    rw [exec]
    exact failsIn_operand rfl fun _ _ hf => failsIn_attempt hf fun _ => trivial
  | binary op =>
    rw [exec]
    exact failsIn_operand rfl fun _ _ hf => failsIn_operand hf fun _ _ hf => failsIn_result hf _
  | jumpIfFalse t =>
    rw [exec]
    apply failsIn_operand rfl
    intro v f' hf
    split
    · trivial
    · trivial
    · exact failsIn_fail hf _
  | ret =>
    rw [exec]
    apply failsIn_operand rfl
    intro v f' hf
    split <;> trivial
  | write =>
    rw [exec]
    apply failsIn_operand rfl
    intro v f' hf
    split
    next => trivial
    next => exact ⟨f', rfl, hf⟩
  | charAt =>
    rw [exec]
    exact failsIn_operand rfl fun _ _ hf => failsIn_attempt hf fun _ =>
      failsIn_operand hf fun _ _ hf => failsIn_attempt hf fun _ => failsIn_result hf _
  | free =>
    rw [exec]
    exact failsIn_operand rfl fun _ _ hf => failsIn_attempt hf fun _ =>
      failsIn_attempt hf fun _ => trivial
  | getField name =>
    rw [exec]
    exact failsIn_operand rfl fun _ _ hf => failsIn_attempt hf fun _ => failsIn_result hf _
  | setField name =>
    rw [exec]
    exact failsIn_operand rfl fun _ _ hf => failsIn_operand hf fun _ _ hf =>
      failsIn_attempt hf fun _ => failsIn_attempt hf fun _ => trivial

theorem dispatch_failsIn (m : Machine) (f : Frame) (i : Instruction) :
    (m.dispatch f i).FailsIn f.routine m.frames.tail := by
  unfold dispatch
  split
  · exact failsIn_fail rfl _
  · exact m.exec_failsIn f i

end Failures

/-- The fault tells where the machine stands: the routines under way, the first one first, the last
of them, and its instruction at the index of the fault, if there is one. -/
structure Locates (e : Fault) (m : Machine) : Prop where
  calls : e.calls = (m.frames.map Frame.name).reverse
  routine : e.calls.getLast? = some e.routine
  place : ∃ f callers, m.frames = f :: callers ∧ e.routine = f.name ∧
    ((∃ i, e.instr = some i ∧ f.routine.code[e.pc]? = some i) ∨
      (e.instr = none ∧ e.cause = .fellOffEnd ∧ f.routine.code.size ≤ e.pc))

variable {m m' m₀ m₁ : Machine} {f : Frame} {callers : List Frame} {e : Fault}

theorem fault_locates {c : Cause} {pc : Nat} {i : Option Instruction} (hf : m.frames = f :: callers)
    (hi : (∃ j, i = some j ∧ f.routine.code[pc]? = some j) ∨
      (i = none ∧ c = .fellOffEnd ∧ f.routine.code.size ≤ pc)) :
    Locates (m.fault c pc i) m where
  calls := rfl
  routine := by simp [fault, Machine.calls, hf]
  place := ⟨f, callers, hf, by simp [fault, hf], hi⟩

/-- A fault leaves the innermost frame in its routine and its callers as they were, and tells where
that is. -/
theorem step_faulted (hf : m.frames = f :: callers) (h : m.step = .stopped (.faulted e) m') :
    (∃ f', m'.frames = f' :: callers ∧ f'.routine = f.routine) ∧ Locates e m' := by
  cases hi : f.instr? with
  | none =>
    simp only [step, hf, hi] at h
    split at h
    next => cases h
    next =>
      cases h
      have hend : f.routine.code.size ≤ f.pc := Array.getElem?_eq_none_iff.mp hi
      exact ⟨⟨f, hf, rfl⟩, fault_locates hf (.inr ⟨rfl, rfl, hend⟩)⟩
  | some i =>
    rw [step_eq hf hi] at h
    have hfails := (m.counted f callers).dispatch_failsIn f.advance i
    cases hd : (m.counted f callers).dispatch f.advance i with
    | next m₁ => rw [hd] at h; cases h
    | finished v m₁ => rw [hd] at h; cases h
    | failed c m₁ =>
      rw [hd] at h hfails
      cases h
      obtain ⟨f', hf', hr⟩ := hfails
      refine ⟨⟨f', hf', hr⟩, fault_locates hf' (.inl ⟨i, rfl, ?_⟩)⟩
      rw [hr]
      exact hi

/-! ## Chains -/

/-- The frame `caller` waits for the frame `callee`: its last instruction was the call. -/
def WaitsFor (callee caller : Frame) : Prop :=
  ∃ pc, caller.pc = pc + 1 ∧ caller.routine.code[pc]? = some (.call callee.name)

/-- Every frame but the innermost waits for the one that it has called, and the outermost one runs
the routine `root`. -/
structure Chained (root : Routine) (frames : List Frame) : Prop where
  waits : frames.IsChain WaitsFor
  outermost : ∀ f, frames.getLast? = some f → f.routine = root

namespace Chained

variable {root : Routine} {f' : Frame}

theorem nil : Chained root [] := ⟨.nil, nofun⟩

theorem singleton (hr : f.routine = root) : Chained root [f] := by
  refine ⟨.singleton f, ?_⟩
  rintro g ⟨⟩
  exact hr

theorem tail (h : Chained root (f :: callers)) : Chained root callers := by
  cases callers with
  | nil => exact nil
  | cons g rest =>
    obtain ⟨hwaits, hroot⟩ := h
    rw [List.isChain_cons_cons] at hwaits
    rw [List.getLast?_cons_cons] at hroot
    exact ⟨hwaits.2, hroot⟩

theorem replace (h : Chained root (f :: callers)) (hr : f'.routine = f.routine) :
    Chained root (f' :: callers) := by
  cases callers with
  | nil => exact singleton (hr.trans (h.outermost f rfl))
  | cons g rest =>
    obtain ⟨hwaits, hroot⟩ := h
    rw [List.isChain_cons_cons, WaitsFor, Frame.name, ← hr] at hwaits
    rw [List.getLast?_cons_cons] at hroot
    refine ⟨List.isChain_cons_cons.mpr hwaits, ?_⟩
    rw [List.getLast?_cons_cons]
    exact hroot

theorem call (h : Chained root (f :: callers)) {callee : Frame} (hw : WaitsFor callee f) :
    Chained root (callee :: f :: callers) := by
  refine ⟨List.isChain_cons_cons.mpr ⟨hw, h.waits⟩, ?_⟩
  rw [List.getLast?_cons_cons]
  exact h.outermost

/-- A step keeps the chain: a call puts a frame on top of it, and a return takes one away. -/
theorem step (hm : Chained root m.frames) (hfiled : Filed m.routines)
    (h : m.step = .running m') : Chained root m'.frames := by
  obtain ⟨f, callers, i, hf, hi, _, hmove⟩ := step_running h
  rw [hf] at hm
  generalize m'.frames = fs at hmove
  cases hmove with
  | stay _ hr _ _ _ _ _ => exact hm.replace hr
  | @enter name r hcall hr _ =>
    subst hcall
    obtain rfl : name = r.name := hfiled.named _ ((Table.get?_eq_some_iff hfiled.distinct).mp hr)
    have hcaller :
        Chained root ({ f.advance with stack := f.advance.stack.drop r.arity } :: callers) :=
      hm.replace rfl
    exact hcaller.call ⟨f.pc, rfl, hi⟩
  | leave _ _ hc =>
    subst hc
    exact hm.tail.replace rfl

theorem stopped (hm : Chained root m.frames) {exit : Exit} (h : m.step = .stopped exit m') :
    Chained root m'.frames := by
  cases exit with
  | paused =>
    rw [(step_paused h).1]
    exact hm
  | finished v =>
    rw [finished_frames h]
    exact nil
  | faulted e =>
    cases hf : m.frames with
    | nil =>
      simp only [Machine.step, hf] at h
      cases h
      rw [hf]
      exact nil
    | cons f callers =>
      obtain ⟨⟨f', hf', hr⟩, _⟩ := step_faulted hf h
      rw [hf] at hm
      rw [hf']
      exact hm.replace hr

end Chained

theorem step_frames_ne_nil (h : m.step = .running m') : m'.frames ≠ [] := by
  obtain ⟨_, _, _, _, _, _, hmove⟩ := step_running h
  generalize m'.frames = fs at hmove
  cases hmove <;> exact List.cons_ne_nil _ _

theorem Reaches.frames_ne_nil (h : Reaches m m') (hm : m.frames ≠ []) : m'.frames ≠ [] :=
  h.preserves (P := fun m => m.frames ≠ []) (fun _ _ _ h => step_frames_ne_nil h) hm

structure Underway (root : Routine) (m : Machine) : Prop where
  filed : Filed m.routines
  chained : Chained root m.frames
  active : m.frames ≠ []

namespace Underway

variable {root : Routine}

theorem step (hm : Underway root m) (h : m.step = .running m') : Underway root m' := by
  obtain ⟨_, _, _, _, _, hset, _⟩ := step_running h
  exact ⟨hset.routines ▸ hm.filed, hm.chained.step hm.filed h, step_frames_ne_nil h⟩

theorem reaches (hm : Underway root m) (h : Reaches m m') : Underway root m' :=
  h.preserves (fun _ _ hm h => hm.step h) hm

theorem runFor (hm : Underway root m) {fuel : Nat} {exit : Exit}
    (h : m.runFor fuel = some (exit, m')) : Filed m'.routines ∧ Chained root m'.frames ∧
      ∀ e, exit = .faulted e → Locates e m' := by
  obtain ⟨n, m₁, _, hsteps, hstop⟩ := runFor_eq_some_iff.mp h
  have hm₁ := hm.reaches ⟨n, hsteps⟩
  refine ⟨(step_stopped hstop).2.routines ▸ hm₁.filed, hm₁.chained.stopped hstop, ?_⟩
  rintro e rfl
  obtain ⟨f, callers, hf⟩ := List.exists_cons_of_ne_nil hm₁.active
  exact (step_faulted hf hstop).2

end Underway

/-! ## Uses of a machine -/

/-- A machine that has been used: since it was fresh, routines have been loaded, and runs and
sessions have come to an end or paused. The last run, if there was one, began with the routine
`root`; that of a session has all code that it has been fed. -/
inductive Used (config : Config) (input : List UInt8) (output : Output) :
    Routine → Machine → Prop where
  | fresh (root : Routine) : Used config input output root (fresh config input output)
  | load {root : Routine} {m m' : Machine} {b : Bytecode} (h : Used config input output root m)
      (hload : m.load b = .ok m') : Used config input output root m'
  | entry {root r : Routine} {m m' : Machine} {name : String} {fuel : Nat}
      {result : Except Fault Value} (h : Used config input output root m)
      (hr : m.routines.get? name = some r) (hrun : m.callEntry fuel name = some (result, m')) :
      Used config input output r m'
  | start {root : Routine} {m : Machine} (name : String) (h : Used config input output root m) :
      Used config input output ⟨name, 0, #[]⟩ (m.startSession name)
  | extend {root : Routine} {m m' : Machine} {f : Frame} {code : Array Instruction}
      {result : Except Fault SessionState} (h : Used config input output root m)
      (hs : m.session = true) (hf : m.frames = [f]) (hrun : m.Takes code result m') :
      Used config input output { root with code := root.code ++ code } m'

inductive Running (config : Config) (input : List UInt8) (output : Output) :
    Routine → Machine → Prop where
  | entry {root r : Routine} {m m₀ m₁ : Machine} {name : String}
      (h : Used config input output root m) (hr : m.routines.get? name = some r)
      (henter : m.enter name = .ok m₀) (hreach : Reaches m₀ m₁) : Running config input output r m₁
  | extend {root : Routine} {m m₁ : Machine} {f : Frame} {code : Array Instruction}
      (h : Used config input output root m) (hs : m.session = true) (hf : m.frames = [f])
      (hreach : Reaches (m.fedWith f code) m₁) :
      Running config input output { root with code := root.code ++ code } m₁

section Uses

variable {config : Config} {input : List UInt8} {output : Output} {root : Routine} {exit : Exit}

theorem load_routines {b : Bytecode} (h : m.load b = .ok m') :
    m' = { m with routines := b.addTo m.routines } := by
  unfold load at h
  simp only at h
  split at h
  · split at h <;> cases h
    rfl
  · cases h
    rfl

theorem flush_snd (m : Machine) : m.flush.2 = { m with output := m.output.flush.2 } := by
  unfold flush
  split
  next h => rw [h]
  next h => rw [h]

theorem conclude_snd (m : Machine) (exit : Exit) : (m.conclude exit).2 = m.flush.2 := by
  unfold conclude
  split
  next h => rw [h]
  next h => rw [h]

theorem settle_snd (m : Machine) (exit : Exit) : (m.settle exit).2.routines = m.routines ∧
    (m.settle exit).2.config = m.config ∧
    ((m.settle exit).2.frames = m.frames ∨ (m.settle exit).2.frames = []) := by
  cases hflush : m.output.flush with
  | mk refusal output =>
    cases refusal with
    | none =>
      rw [settle_of_flush hflush]
      cases exit with
      | paused | finished => exact ⟨rfl, rfl, .inl rfl⟩
      | faulted e => exact ⟨rfl, rfl, .inr rfl⟩
    | some reason =>
      rw [settle_of_refusal hflush]
      exact ⟨rfl, rfl, .inl rfl⟩

def entered (m : Machine) (r : Routine) : Machine :=
  { m with steps := 0, session := false, frames := [{ routine := r }] }

theorem enter_eq {name : String} {r : Routine} (hr : m.routines.get? name = some r) :
    m.enter name = .ok (m.entered r) := by
  rw [enter, hr]
  rfl

theorem callEntry_eq {name : String} {r : Routine} (hr : m.routines.get? name = some r)
    (fuel : Nat) :
    m.callEntry fuel name = ((m.entered r).runFor fuel).map fun (exit, m) => m.conclude exit := by
  rw [callEntry, enter_eq hr]

theorem underway_entered (h : Filed m.routines) (r : Routine) : Underway r (m.entered r) :=
  ⟨h, .singleton rfl, List.cons_ne_nil _ _⟩

theorem underway_fedWith (h : Filed m.routines) (hm : Chained root m.frames) (hf : m.frames = [f])
    (code : Array Instruction) :
    Underway { root with code := root.code ++ code } (m.fedWith f code) := by
  rw [hf] at hm
  refine ⟨h, .singleton ?_, List.cons_ne_nil _ _⟩
  rw [Frame.append, hm.outermost f rfl]

/-- Whatever a machine has been used for, its routines stand under their names and its frames are a
chain. -/
theorem Used.chained (h : Used config input output root m) :
    Filed m.routines ∧ Chained root m.frames := by
  induction h with
  | fresh root => exact ⟨.nil, .nil⟩
  | @load root m m' b _ hload ih =>
    rw [load_routines hload]
    exact ⟨ih.1.addTo b, ih.2⟩
  | @entry root r m m' name fuel result _ hr hcall ih =>
    rw [callEntry_eq hr] at hcall
    obtain ⟨⟨exit, m₁⟩, hrun, hconclude⟩ := Option.map_eq_some_iff.mp hcall
    obtain rfl : m₁.flush.2 = m' := by
      rw [← conclude_snd m₁ exit]
      exact congrArg Prod.snd hconclude
    obtain ⟨hfiled, hchained, _⟩ := (underway_entered ih.1 r).runFor hrun
    rw [flush_snd]
    exact ⟨hfiled, hchained⟩
  | start name _ ih => exact ⟨ih.1, .singleton rfl⟩
  | @extend root m m' f code result _ hs hf htakes ih =>
    obtain ⟨fuel, exit, m₁, hrun, hsettle⟩ := (takes_iff_run hs hf).mp htakes
    obtain ⟨hfiled, hchained, _⟩ := (underway_fedWith ih.1 ih.2 hf code).runFor hrun
    obtain ⟨hroutines, _, hframes⟩ := m₁.settle_snd exit
    rw [hsettle] at hroutines hframes
    refine ⟨hroutines ▸ hfiled, ?_⟩
    rcases hframes with hframes | hframes
    · exact hframes ▸ hchained
    · exact hframes ▸ .nil

theorem Running.underway (h : Running config input output root m) : Underway root m := by
  cases h with
  | entry h hr henter hreach =>
    rw [enter_eq hr] at henter
    cases henter
    exact (underway_entered h.chained.1 root).reaches hreach
  | extend h hs hf hreach => exact (underway_fedWith h.chained.1 h.chained.2 hf _).reaches hreach

/-- In every state of a machine, each frame but the innermost stands behind its call of the next
one, back to the routine with which the run began. So a fault of a run tells the routines under way
and the instruction at which the innermost one failed. -/
theorem calls_form_a_chain_and_faults_tell_their_place (config : Config) (input : List UInt8)
    (output : Output) (root : Routine) (m : Machine) :
    (Used config input output root m → Chained root m.frames) ∧
    (Running config input output root m →
      Chained root m.frames ∧ m.frames ≠ [] ∧
      ∀ fuel e m', m.runFor fuel = some (.faulted e, m') →
        Chained root m'.frames ∧ Locates e m') := by
  refine ⟨fun h => h.chained.2, ?_⟩
  intro h
  have hm := h.underway
  refine ⟨hm.chained, hm.active, ?_⟩
  intro fuel e m' hrun
  obtain ⟨_, hchained, hlocates⟩ := hm.runFor hrun
  exact ⟨hchained, hlocates e rfl⟩

/-- Three routines, the last of which takes more operands than it has. -/
def threeDeep : Bytecode :=
  [⟨"main", 0, #[.call "f", .ret]⟩, ⟨"f", 0, #[.push .nil, .call "g", .ret]⟩,
    ⟨"g", 1, #[.pop, .pop, .ret]⟩]

theorem fault_three_calls_deep_tells_its_place :
    ∃ m m' e, Running { verify := false } [] {} ⟨"main", 0, #[.call "f", .ret]⟩ m ∧
      m.runFor 6 = some (.faulted e, m') ∧
      e = ⟨.stackUnderflow, "g", 1, some .pop, ["main", "f", "g"]⟩ ∧
      Chained ⟨"main", 0, #[.call "f", .ret]⟩ m'.frames ∧ Locates e m' := by
  have hused : Used { verify := false } [] {} ⟨"main", 0, #[]⟩
      { fresh { verify := false } [] {} with routines := threeDeep.addTo [] } :=
    .load (b := threeDeep) (.fresh _) rfl
  have hrunning : Running { verify := false } [] {} ⟨"main", 0, #[.call "f", .ret]⟩ _ :=
    .entry hused (show Table.get? _ "main" = _ from rfl) rfl (.refl _)
  obtain ⟨_, _, hfault⟩ := (calls_form_a_chain_and_faults_tell_their_place _ _ _ _ _).2 hrunning
  obtain ⟨hchained, hlocates⟩ := hfault 6 _ _ rfl
  exact ⟨_, _, _, hrunning, rfl, rfl, hchained, hlocates⟩

end Uses

end Machine

end RecordLang

import RecordLang.Proofs.Machine.Parallel

/-! # Sessions fed in pieces

A session that has paused goes on as if the code that it is fed next had been there from the start.
So it does not matter into which pieces its code is cut.
-/

namespace RecordLang.Machine

/-- The same state, but for the number of requests that the output has had. -/
structure SameState (m m' : Machine) : Prop where
  frames : m'.frames = m.frames
  heap : m'.heap = m.heap
  input : m'.input = m.input
  text : m'.output.text = m.output.text
  steps : m'.steps = m.steps
  session : m'.session = m.session
  routines : m'.routines = m.routines
  config : m'.config = m.config

/-- The machine comes to the result in the state `m'` when its session is fed the code. -/
def Takes (m : Machine) (code : Array Instruction) (result : Except Fault SessionState)
    (m' : Machine) : Prop :=
  ∃ fuel, m.extendSession fuel code = some (result, m')

/-- The machine comes to the result when its session is fed one piece of code after the other, for
as long as it pauses. -/
inductive TakesAll : Machine → List (Array Instruction) → Except Fault SessionState → Machine →
    Prop where
  | stop {m m' : Machine} {piece : Array Instruction} {pieces : List (Array Instruction)}
      {result : Except Fault SessionState} (h : m.Takes piece result m')
      (hstop : pieces = [] ∨ result ≠ .ok .paused) : TakesAll m (piece :: pieces) result m'
  | pause {m m₁ m' : Machine} {piece : Array Instruction} {pieces : List (Array Instruction)}
      {result : Except Fault SessionState} (h : m.Takes piece (.ok .paused) m₁)
      (hrest : TakesAll m₁ pieces result m') : TakesAll m (piece :: pieces) result m'

/-- Two ways to feed a session come to the same results in the same states, or do not end. -/
def EndAlike (E E' : Except Fault SessionState → Machine → Prop) : Prop :=
  (∀ result m, E result m → ∃ m', E' result m' ∧ SameState m m') ∧
    ∀ result m', E' result m' → ∃ m, E result m ∧ SameState m m'

structure Live (m : Machine) (f : Frame) : Prop where
  session : m.session = true
  frames : m.frames = [f]
  accepts : ∀ n r, m.output.refusal n r = none

/-- The machine when the code has been put behind that of its only frame `f`. -/
def fedWith (m : Machine) (f : Frame) (code : Array Instruction) : Machine :=
  { m with frames := [f.append code] }

variable {m m' m₁ m₂ : Machine} {f : Frame} {a b code : Array Instruction} {exit : Exit}
  {result : Except Fault SessionState}

theorem SameState.refl (m : Machine) : SameState m m := ⟨rfl, rfl, rfl, rfl, rfl, rfl, rfl, rfl⟩

theorem SameState.trans (h : SameState m m₁) (h' : SameState m₁ m₂) : SameState m m₂ where
  frames := h'.frames.trans h.frames
  heap := h'.heap.trans h.heap
  input := h'.input.trans h.input
  text := h'.text.trans h.text
  steps := h'.steps.trans h.steps
  session := h'.session.trans h.session
  routines := h'.routines.trans h.routines
  config := h'.config.trans h.config

/-! ## How a session is settled -/

theorem settle_of_flush {output : Output} (h : m.output.flush = (none, output)) (exit : Exit) :
    m.settle exit = match exit with
      | .paused => (.ok .paused, { m with output })
      | .finished v => (.ok (.ended v), { m with output, session := false })
      | .faulted e => (.error e, { m with output, session := false, frames := [] }) := by
  have hflush : m.flush = (.ok (), { m with output }) := by simp only [flush, h]
  unfold Machine.settle
  rw [hflush]
  cases exit <;> rfl

theorem settle_of_refusal {reason : String} {output : Output}
    (h : m.output.flush = (some reason, output)) (exit : Exit) :
    m.settle exit = (.error (.detached (.io reason)), { m with output }) := by
  have hflush : m.flush = (.error (.detached (.io reason)), { m with output }) := by
    simp only [flush, h]
  unfold Machine.settle
  rw [hflush]

theorem settle_of_accepts (h : ∀ n r, m.output.refusal n r = none) (exit : Exit) :
    m.settle exit = match exit with
      | .paused => (.ok .paused, { m with output := m.output.tick })
      | .finished v => (.ok (.ended v), { m with output := m.output.tick, session := false })
      | .faulted e =>
        (.error e, { m with output := m.output.tick, session := false, frames := [] }) :=
  settle_of_flush (Output.flush_of_accepts h) exit

theorem Parallel.settle (h : Parallel code m m') (hc : m'.config = m.config)
    (hf : (∃ e, exit = .faulted e) ∨ m'.frames = m.frames) :
    ∃ result m₁ m₁', m.settle exit = (result, m₁) ∧ m'.settle exit = (result, m₁') ∧
      SameState m₁ m₁' := by
  rw [settle_of_accepts h.output.accepts, settle_of_accepts h.output.accepts']
  cases exit with
  | paused =>
    obtain ⟨_, he⟩ | hf := hf
    · cases he
    · exact ⟨_, _, _, rfl, rfl, hf, h.heap, h.input, h.output.text, h.steps, h.session,
        h.routines, hc⟩
  | finished v =>
    obtain ⟨_, he⟩ | hf := hf
    · cases he
    · exact ⟨_, _, _, rfl, rfl, hf, h.heap, h.input, h.output.text, h.steps, rfl, h.routines, hc⟩
  | faulted e =>
    exact ⟨_, _, _, rfl, rfl, rfl, h.heap, h.input, h.output.text, h.steps, rfl, h.routines, hc⟩

theorem finished_frames {v : Value} (h : m.step = .stopped (.finished v) m') : m'.frames = [] := by
  cases (step_stopped h).1 with
  | @finished f _ s hf hi hs =>
    rw [step_eq hf hi, dispatch] at h
    split at h
    · cases h
    · simp only [exec, ret, operand, attempt, Frame.pop, Frame.advance, hs, counted,
        List.tail_cons, Outcome.progress] at h
      cases h
      rfl

theorem step_paused (h : m.step = .stopped .paused m') :
    m' = m ∧ ∃ f, m.frames = [f] ∧ f.instr? = none := by
  cases (step_stopped h).1 with
  | @paused f hf hi hs =>
    simp only [step, hf, hi, hs, List.isEmpty_nil, Bool.and_self, if_true] at h
    cases h
    exact ⟨rfl, f, hf, hi⟩

/-! ## One piece of code -/

theorem extendSession_eq (hs : m.session = true) (hf : m.frames = [f]) (fuel : Nat)
    (code : Array Instruction) :
    m.extendSession fuel code =
      ((m.fedWith f code).runFor fuel).map fun (exit, m) => m.settle exit := by
  unfold extendSession
  split
  next _ _ f' _ hf' =>
    obtain rfl : f = f' := (List.cons.inj (hf.symm.trans hf')).1
    rfl
  next hnot => exact absurd hf (hnot f hs)

theorem takes_iff_run (hs : m.session = true) (hf : m.frames = [f]) : m.Takes code result m' ↔
    ∃ fuel exit m₁, (m.fedWith f code).runFor fuel = some (exit, m₁) ∧
      m₁.settle exit = (result, m') := by
  simp only [Takes, extendSession_eq hs hf, Option.map_eq_some_iff, Prod.exists]

theorem takes_iff (hl : Live m f) : m.Takes code result m' ↔
    ∃ fuel exit m₁, (m.fedWith f code).runFor fuel = some (exit, m₁) ∧
      m₁.settle exit = (result, m') := takes_iff_run hl.session hl.frames

theorem takes_unique (hl : Live m f) {result' : Except Fault SessionState}
    (h : m.Takes code result m₁) (h' : m.Takes code result' m₂) : result = result' ∧ m₁ = m₂ := by
  obtain ⟨fuel, exit, m₀, hrun, hsettle⟩ := (takes_iff hl).mp h
  obtain ⟨fuel', exit', m₀', hrun', hsettle'⟩ := (takes_iff hl).mp h'
  obtain ⟨rfl, rfl⟩ := Prod.mk.inj (runFor_unique hrun hrun')
  exact Prod.mk.inj (hsettle.symm.trans hsettle')

theorem Live.reaches (hl : Live m f) (h : Reaches (m.fedWith f code) m₁) :
    m₁.session = true ∧ (∀ n r, m₁.output.refusal n r = none) ∧ m₁.config = m.config := by
  have hset := h.sameSetting
  refine ⟨hset.session.trans hl.session, ?_, hset.config⟩
  rw [hset.refusal]
  exact hl.accepts

theorem Live.parallel (hl : Live m f) (a b : Array Instruction) :
    Parallel b (m.fedWith f a) (m.fedWith f (a ++ b)) where
  frames := by simp [fedWith, feed, Frame.append, Array.append_assoc]
  routines := rfl
  maxDepth := rfl
  heap := rfl
  input := rfl
  output := ⟨rfl, hl.accepts, hl.accepts⟩
  steps := rfl
  session := rfl

theorem settle_eq_paused (h : ∀ n r, m.output.refusal n r = none)
    (hs : m.settle exit = (.ok .paused, m')) :
    exit = .paused ∧ m' = { m with output := m.output.tick } := by
  rw [settle_of_accepts h] at hs
  cases exit <;> cases hs
  exact ⟨rfl, rfl⟩

theorem settle_ne_paused (h : ∀ n r, m.output.refusal n r = none)
    (hs : m.settle exit = (result, m')) (hr : result ≠ .ok .paused) : exit ≠ .paused := by
  rintro rfl
  rw [settle_of_accepts h] at hs
  cases hs
  exact hr rfl

/-- A session that ends with a piece of code ends in the same way with more code. -/
theorem Live.ends (hl : Live m f) (h : m.Takes a result m₁) (hr : result ≠ .ok .paused)
    (b : Array Instruction) : ∃ m₂, m.Takes (a ++ b) result m₂ ∧ SameState m₁ m₂ := by
  obtain ⟨fuel, exit, m₀, hrun, hsettle⟩ := (takes_iff hl).mp h
  obtain ⟨n, s, _, hsteps, hstop⟩ := runFor_eq_some_iff.mp hrun
  obtain ⟨s', hsteps', hpar, hc⟩ := (hl.parallel a b).steps_of rfl hsteps
  obtain ⟨hlive, haccepts, _⟩ := hl.reaches ⟨n, hsteps⟩
  have hset := (step_stopped hstop).2
  have hexit : exit ≠ .paused := settle_ne_paused (by rw [hset.refusal]; exact haccepts) hsettle hr
  obtain ⟨m₀', hstop', hpar', hc'⟩ := hpar.stopped hc hlive hstop hexit
  have hframes : (∃ e, exit = .faulted e) ∨ m₀'.frames = m₀.frames := by
    cases exit with
    | paused => exact absurd rfl hexit
    | finished v => exact .inr (by rw [finished_frames hstop, finished_frames hstop'])
    | faulted e => exact .inl ⟨e, rfl⟩
  obtain ⟨result', m₂, m₂', hs, hs', hsame⟩ := hpar'.settle hc' hframes
  obtain ⟨rfl, rfl⟩ := Prod.mk.inj (hs.symm.trans hsettle)
  have hrun' := runFor_eq_some_iff.mpr ⟨n, s', Nat.lt_succ_self n, hsteps', hstop'⟩
  exact ⟨m₂', (takes_iff hl).mpr ⟨_, _, _, hrun', hs'⟩, hsame⟩

/-- Sessions end alike if the second one comes to a state that is parallel to the first. -/
theorem Live.endAlike (hl : Live m f) {f' : Frame} (hl' : Live m' f') {n : Nat} {s : Machine}
    (hsteps : Steps n (m'.fedWith f' b) s) (hpar : Parallel #[] (m.fedWith f a) s)
    (hc : s.config = m.config) : EndAlike (m.Takes a) (m'.Takes b) := by
  constructor
  · intro result m₁ h
    obtain ⟨k, exit, t, hrun, hsettle⟩ := (takes_iff hl).mp h
    obtain ⟨t', hrun', hpar', hc'⟩ := hpar.runFor hc hrun
    obtain ⟨result', t₁, t₁', hs, hs', hsame⟩ :=
      hpar'.settle hc' (.inr (hpar'.frames.trans (feed_empty _)))
    obtain ⟨rfl, rfl⟩ := Prod.mk.inj (hs.symm.trans hsettle)
    exact ⟨t₁', (takes_iff hl').mpr ⟨n + k, exit, t', by rw [hsteps.runFor, hrun'], hs'⟩, hsame⟩
  · intro result m₁' h
    obtain ⟨k, exit, t', hrun', hsettle⟩ := (takes_iff hl').mp h
    have hrun' := runFor_mono hrun' (Nat.le_add_left k n)
    rw [hsteps.runFor] at hrun'
    obtain ⟨t, hrun, hpar', hc'⟩ := hpar.symm.runFor hc.symm hrun'
    obtain ⟨result', t₁, t₁', hs, hs', hsame⟩ :=
      hpar'.symm.settle hc'.symm (.inr (hpar'.symm.frames.trans (feed_empty _)))
    obtain ⟨rfl, rfl⟩ := Prod.mk.inj (hs'.symm.trans hsettle)
    exact ⟨t₁, (takes_iff hl).mpr ⟨k, exit, t, hrun, hs⟩, hsame⟩

/-- A session that pauses behind a piece of code goes on as if more code had been there before. -/
theorem Live.goesOn (hl : Live m f) (h : m.Takes a (.ok .paused) m₁) :
    ∃ f₁, Live m₁ f₁ ∧ ∀ b, EndAlike (m₁.Takes b) (m.Takes (a ++ b)) := by
  obtain ⟨fuel, exit, s, hrun, hsettle⟩ := (takes_iff hl).mp h
  obtain ⟨n, s₀, _, hsteps, hstop⟩ := runFor_eq_some_iff.mp hrun
  obtain ⟨hlive, haccepts, _⟩ := hl.reaches ⟨n, hsteps⟩
  have hset := (step_stopped hstop).2
  obtain ⟨rfl, rfl⟩ := settle_eq_paused (by rw [hset.refusal]; exact haccepts) hsettle
  obtain ⟨rfl, f₁, hf₁, _⟩ := step_paused hstop
  have hl₁ : Live { s with output := s.output.tick } f₁ := ⟨hlive, hf₁, haccepts⟩
  refine ⟨f₁, hl₁, ?_⟩
  intro b
  obtain ⟨s', hsteps', hpar, hc⟩ := (hl.parallel a b).steps_of rfl hsteps
  -- Behind the steps of the first piece, the two machines differ in one request only.
  refine hl₁.endAlike hl hsteps' ?_ hc
  exact
    { frames := by rw [hpar.frames, hf₁, feed_empty]; rfl
      routines := hpar.routines
      maxDepth := hpar.maxDepth
      heap := hpar.heap
      input := hpar.input
      output := (Output.alike_tick haccepts).symm.trans hpar.output
      steps := hpar.steps
      session := hpar.session }

/-- A session that ends with more code behind a piece of code ends or pauses with that piece. -/
theorem Live.exists_takes (hl : Live m f) (h : m.Takes (a ++ b) result m') :
    ∃ result₁ m₁, m.Takes a result₁ m₁ := by
  obtain ⟨fuel, exit, s, hrun, _⟩ := (takes_iff hl).mp h
  cases hfirst : (m.fedWith f a).runFor fuel with
  | some x => exact ⟨_, _, (takes_iff hl).mpr ⟨fuel, x.1, x.2, hfirst, rfl⟩⟩
  | none =>
    obtain ⟨t, hsteps⟩ := runFor_eq_none_iff.mp hfirst
    obtain ⟨t', hsteps', _⟩ := (hl.parallel a b).steps_of rfl hsteps
    rw [runFor_eq_none_iff.mpr ⟨t', hsteps'⟩] at hrun
    cases hrun

/-! ## Pieces of code -/

theorem Live.takesAll (hl : Live m f) {pieces : List (Array Instruction)} (hne : pieces ≠ []) :
    EndAlike (m.TakesAll pieces) (m.Takes (pieces.foldr (· ++ ·) #[])) := by
  induction pieces generalizing m f with
  | nil => exact absurd rfl hne
  | cons piece pieces ih =>
    rw [List.foldr_cons]
    by_cases hlast : pieces = []
    · subst hlast
      rw [List.foldr_nil, Array.append_empty]
      constructor
      · intro result m' h
        cases h with
        | stop h _ => exact ⟨m', h, .refl m'⟩
        | pause _ hrest => cases hrest
      · intro result m' h
        exact ⟨m', .stop h (.inl rfl), .refl m'⟩
    · constructor
      · intro result m' h
        cases h with
        | stop h hstop => exact hl.ends h (hstop.resolve_left hlast) _
        | @pause _ m₁ _ _ _ _ h hrest =>
          obtain ⟨f₁, hl₁, halike⟩ := hl.goesOn h
          obtain ⟨m₂, h₂, hsame⟩ := (ih hl₁ hlast).1 result m' hrest
          obtain ⟨m₃, h₃, hsame'⟩ := (halike _).1 result m₂ h₂
          exact ⟨m₃, h₃, hsame.trans hsame'⟩
      · intro result m' h
        obtain ⟨result₁, m₁, h₁⟩ := hl.exists_takes h
        by_cases hpaused : result₁ = .ok .paused
        · subst hpaused
          obtain ⟨f₁, hl₁, halike⟩ := hl.goesOn h₁
          obtain ⟨m₂, h₂, hsame⟩ := (halike _).2 result m' h
          obtain ⟨m₃, h₃, hsame'⟩ := (ih hl₁ hlast).2 result m₂ h₂
          exact ⟨m₃, .pause h₁ h₃, hsame'.trans hsame⟩
        · obtain ⟨m₂, h₂, hsame⟩ := hl.ends h₁ hpaused (pieces.foldr (· ++ ·) #[])
          obtain ⟨rfl, rfl⟩ := takes_unique hl h h₂
          exact ⟨m₁, .stop h₁ (.inr hpaused), hsame⟩

/-- It does not matter how the code that a session is fed is cut into pieces. A session that has
paused goes on as if all of the code had been there at once; one that has ended ends in the same way
with more code; and any number of pieces lead to what their whole leads to. -/
theorem session_code_may_be_cut_anywhere (hsession : m.session = true) (hframes : m.frames = [f])
    (haccepts : ∀ n r, m.output.refusal n r = none) :
    (∀ a b m₁, m.Takes a (.ok .paused) m₁ → EndAlike (m₁.Takes b) (m.Takes (a ++ b))) ∧
    (∀ a b result m₁, m.Takes a result m₁ → result ≠ .ok .paused →
      ∃ m₂, m.Takes (a ++ b) result m₂ ∧ SameState m₁ m₂) ∧
    ∀ pieces, pieces ≠ [] →
      EndAlike (m.TakesAll pieces) (m.Takes (pieces.foldr (· ++ ·) #[])) := by
  have hl : Live m f := ⟨hsession, hframes, haccepts⟩
  refine ⟨?_, ?_, ?_⟩
  · intro a b m₁ h
    obtain ⟨_, _, halike⟩ := hl.goesOn h
    exact halike b
  · intro a b result m₁ h hresult
    exact hl.ends h hresult b
  · intro pieces hne
    exact hl.takesAll hne

/-- A session that has jumped to an instruction which is not there yet. -/
def jumped : Machine where
  frames := [⟨⟨"top", 0, #[.jump 2]⟩, #[], [], 2⟩]
  output := { requests := 1 }
  steps := 1
  session := true

theorem jump_into_the_next_piece :
    ((fresh {} [] {}).startSession "top").Takes #[.jump 2] (.ok .paused) jumped ∧
    (∃ m, jumped.Takes #[.nop, .push (.int 7), .dup, .write, .ret] (.ok (.ended (.int 7))) m) ∧
    ∃ m, ((fresh {} [] {}).startSession "top").Takes
        #[.jump 2, .nop, .push (.int 7), .dup, .write, .ret] (.ok (.ended (.int 7))) m ∧
      m.output.text = "7" := by
  have hpause : ((fresh {} [] {}).startSession "top").Takes #[.jump 2] (.ok .paused) jumped :=
    ⟨2, rfl⟩
  have hend : ∃ m, jumped.Takes #[.nop, .push (.int 7), .dup, .write, .ret]
      (.ok (.ended (.int 7))) m ∧ m.output.text = "7" := ⟨_, ⟨5, rfl⟩, rfl⟩
  obtain ⟨m, htakes, htext⟩ := hend
  obtain ⟨hsplit, _⟩ := session_code_may_be_cut_anywhere
    (m := (fresh {} [] {}).startSession "top") rfl rfl fun _ _ => rfl
  obtain ⟨m', htakes', hsame⟩ := (hsplit _ _ _ hpause).1 _ _ htakes
  exact ⟨hpause, ⟨m, htakes⟩, m', htakes', hsame.text.trans htext⟩

end RecordLang.Machine

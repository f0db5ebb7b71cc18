import RecordLang.Proofs.Machine.Endings
import RecordLang.Proofs.Machine.Limits

/-! # The limit on steps

A limit on the number of instructions does not show in a run that keeps to it. A run that would
exceed it stops there, in the state to which the allowed instructions have led.
-/

namespace RecordLang

def Outcome.machine : Outcome → Machine
  | .next m | .finished _ m | .failed _ m => m

def Progress.machine : Progress → Machine
  | .running m | .stopped _ m => m

namespace Machine

def withMaxSteps (limit : Option Nat) (m : Machine) : Machine :=
  { m with config := { m.config with maxSteps := limit } }

/-- The machine comes to the result in the state `m'` when the routine `name` is called. -/
def Answers (m : Machine) (name : String) (result : Except Fault Value) (m' : Machine) : Prop :=
  ∃ fuel, m.callEntry fuel name = some (result, m')

/-- The machine comes to the results, one for each piece of code, when its session is fed the pieces
one after the other. -/
inductive Feeds : Machine → List (Array Instruction) → List (Except Fault SessionState) → Machine →
    Prop where
  | nil (m : Machine) : Feeds m [] [] m
  | cons {m m₁ m' : Machine} {piece : Array Instruction} {pieces : List (Array Instruction)}
      {result : Except Fault SessionState} {results : List (Except Fault SessionState)}
      (h : m.Takes piece result m₁) (hrest : Feeds m₁ pieces results m') :
      Feeds m (piece :: pieces) (result :: results) m'

/-- The fault `e` has stopped a run at the limit of `n` steps. The machine `l` that it leaves has
counted the instruction that was one too many, and the rest is as in `m`, the state behind the
instructions that were allowed. -/
structure CutShort (n : Nat) (m : Machine) (e : Fault) (l : Machine) : Prop where
  cause : e.cause = .stepLimitExceeded n
  allowed : m.steps = n
  steps : l.steps = n + 1
  text : l.output.text = m.output.text
  heap : l.heap = m.heap
  input : l.input = m.input

variable {m m' u u' : Machine} {f : Frame} {i : Instruction} {limit : Option Nat} {n k : Nat}
  {exit : Exit}

/-! ## Counting -/

theorem exec_steps (m : Machine) (f : Frame) (i : Instruction) :
    (m.exec f i).machine.steps = m.steps := by
  -- The machine is the one whose count is set to what it is.
  have hsame : (m.exec f i).map (retuned id fun _ => m.steps) = m.exec f i :=
    (exec_retuned i fun name _ => call_retuned rfl name).symm
  cases h : m.exec f i with
  | next m₁ =>
    rw [h] at hsame
    exact (congrArg (·.machine.steps) hsame).symm
  | finished v m₁ =>
    rw [h] at hsame
    exact (congrArg (·.machine.steps) hsame).symm
  | failed c m₁ =>
    rw [h] at hsame
    exact (congrArg (·.machine.steps) hsame).symm

theorem dispatch_steps (m : Machine) (f : Frame) (i : Instruction) :
    (m.dispatch f i).machine.steps = m.steps := by
  unfold dispatch
  split
  · rfl
  · exact m.exec_steps f i

theorem progress_machine (o : Outcome) (pc : Nat) (i : Instruction) :
    (o.progress pc i).machine = o.machine := by
  cases o <;> rfl

theorem Due.step_steps (h : m.Due) : m.step.machine.steps = m.steps + 1 := by
  obtain ⟨f, callers, i, hf, hi⟩ := h
  rw [step_eq hf hi, progress_machine, dispatch_steps]
  rfl

theorem step_of_not_due (h : ¬ m.Due) : ∃ exit, m.step = .stopped exit m := by
  cases hf : m.frames with
  | nil =>
    simp only [step, hf]
    exact ⟨_, rfl⟩
  | cons f callers =>
    cases hi : f.instr? with
    | some i => exact absurd ⟨f, callers, i, hf, hi⟩ h
    | none =>
      simp only [step, hf, hi]
      split <;> exact ⟨_, rfl⟩

theorem step_machine_steps_le (m : Machine) : m.steps ≤ m.step.machine.steps := by
  by_cases hdue : m.Due
  · rw [hdue.step_steps]
    exact Nat.le_succ _
  · obtain ⟨exit, hstop⟩ := step_of_not_due hdue
    rw [hstop]
    exact Nat.le_refl _

theorem due_of_running (h : m.step = .running m') : m.Due := by
  by_contra hdue
  obtain ⟨exit, hstop⟩ := step_of_not_due hdue
  rw [h] at hstop
  cases hstop

theorem Steps.count (h : Steps k m m') : m'.steps = m.steps + k := by
  induction h with
  | refl => rfl
  | @cons k m m₁ m₂ hs _ ih =>
    have hcount := (due_of_running hs).step_steps
    rw [hs] at hcount
    rw [ih, show m₁.steps = m.steps + 1 from hcount]
    omega

/-! ## Steps under a limit -/

theorem withMaxSteps_eq_retuned (limit : Option Nat) :
    withMaxSteps limit = retuned (fun c => { c with maxSteps := limit }) id := rfl

theorem dispatch_withMaxSteps (hm : m.config.maxSteps = none) (h : m.steps ≤ n) :
    (m.withMaxSteps (some n)).dispatch f i = (m.dispatch f i).map (withMaxSteps (some n)) := by
  have hsome : (m.withMaxSteps (some n)).config.maxSteps.filter
      (· < (m.withMaxSteps (some n)).steps) = none := by
    have hle : ¬ n < m.steps := Nat.not_lt.mpr h
    simp [withMaxSteps, hle]
  unfold dispatch
  rw [hsome, hm, Option.filter_none, withMaxSteps_eq_retuned]
  exact exec_retuned i fun name _ => call_retuned rfl name

/-- A machine without a limit that has steps left under the limit `n`, or needs none, does with the
limit what it does without. -/
theorem step_withMaxSteps (hm : m.config.maxSteps = none) (h : m.Due → m.steps < n) :
    (m.withMaxSteps (some n)).step = m.step.map (withMaxSteps (some n)) := by
  by_cases hdue : m.Due
  · have hlt := h hdue
    obtain ⟨f, callers, i, hf, hi⟩ := hdue
    have hf' : (m.withMaxSteps (some n)).frames = f :: callers := hf
    have hcounted : (m.counted f callers).config.maxSteps = none := hm
    have hdispatch := dispatch_withMaxSteps (f := f.advance) (i := i) hcounted
      (show m.steps + 1 ≤ n from hlt)
    rw [step_eq hf hi, step_eq hf' hi, withMaxSteps_eq_retuned, ← progress_retuned,
      ← withMaxSteps_eq_retuned, ← hdispatch]
    rfl
  · rw [withMaxSteps_eq_retuned]
    exact step_retuned_of_not_due hdue

/-- Where a machine has used up the steps that the limit allows, the next instruction is counted but
not carried out. -/
theorem Due.step_at_limit (h : m.Due) :
    ∃ e l, (m.withMaxSteps (some m.steps)).step = .stopped (.faulted e) l ∧
      CutShort m.steps m e l := by
  obtain ⟨f, callers, i, hf, hi⟩ := h
  have hf' : (m.withMaxSteps (some m.steps)).frames = f :: callers := hf
  have hsome : ((m.withMaxSteps (some m.steps)).counted f callers).config.maxSteps.filter
      (· < ((m.withMaxSteps (some m.steps)).counted f callers).steps) = some m.steps := by
    simp [withMaxSteps, counted]
  rw [step_eq hf' hi, dispatch, hsome]
  exact ⟨_, _, rfl, rfl, rfl, rfl, rfl, rfl, rfl⟩

/-! ## Runs under a limit -/

theorem runFor_steps_le (h : m.runFor k = some (exit, m')) : m.steps ≤ m'.steps := by
  obtain ⟨j, m₁, _, hsteps, hstop⟩ := runFor_eq_some_iff.mp h
  have hle := m₁.step_machine_steps_le
  rw [hstop, hsteps.count] at hle
  exact Nat.le_trans (Nat.le_add_right _ _) hle

theorem Steps.withMaxSteps (hm : m.config.maxSteps = none) (h : Steps k m m') (hn : m'.steps ≤ n) :
    Steps k (m.withMaxSteps (some n)) (m'.withMaxSteps (some n)) := by
  induction h with
  | refl => exact .refl _
  | @cons k m m₁ m₂ hs hrest ih =>
    have hcount := (Steps.cons hs hrest).count
    have hset := Reaches.sameSetting (.single hs)
    refine .cons ?_ (ih (hset.config ▸ hm) hn)
    rw [step_withMaxSteps hm fun _ => by omega, hs]
    rfl

theorem runFor_withMaxSteps (hm : m.config.maxSteps = none) (h : m.runFor k = some (exit, m'))
    (hn : m'.steps ≤ n) :
    (m.withMaxSteps (some n)).runFor k = some (exit, m'.withMaxSteps (some n)) := by
  obtain ⟨j, m₁, hj, hsteps, hstop⟩ := runFor_eq_some_iff.mp h
  have hle := m₁.step_machine_steps_le
  rw [hstop] at hle
  have hm₁ : m₁.config.maxSteps = none := (Reaches.sameSetting ⟨j, hsteps⟩).config ▸ hm
  have hlt : m₁.Due → m₁.steps < n := by
    intro hdue
    have hcount := hdue.step_steps
    rw [hstop] at hcount
    exact Nat.lt_of_succ_le (Nat.le_trans (Nat.le_of_eq hcount.symm) hn)
  refine runFor_eq_some_iff.mpr
    ⟨j, m₁.withMaxSteps (some n), hj, hsteps.withMaxSteps hm (Nat.le_trans hle hn), ?_⟩
  rw [step_withMaxSteps hm₁ hlt, hstop]
  rfl

/-- The run from `m` ends after at most `n` steps, those that `m` has counted included. -/
def EndsWithin (n : Nat) (m : Machine) : Prop :=
  ∃ k exit m', m.runFor k = some (exit, m') ∧ m'.steps ≤ n

theorem not_endsWithin_of_steps (h : Steps k m m') (hn : n < m.steps + k) : ¬ EndsWithin n m := by
  rintro ⟨j, exit, m₁, hrun, hle⟩
  have hrest := runFor_mono hrun (Nat.le_add_left j k)
  rw [h.runFor] at hrest
  have hmore := runFor_steps_le hrest
  rw [h.count] at hmore
  omega

/-- A run that does not end within the limit takes all the steps that are allowed and has more to
do. -/
theorem steps_of_not_endsWithin (hn : m.steps ≤ n) (h : ¬ EndsWithin n m) :
    ∃ m', Steps (n - m.steps) m m' ∧ m'.Due := by
  obtain ⟨d, rfl⟩ := Nat.exists_eq_add_of_le hn
  rw [Nat.add_sub_cancel_left]
  clear hn
  induction d generalizing m with
  | zero =>
    refine ⟨m, .refl m, ?_⟩
    by_contra hdue
    obtain ⟨exit, hstop⟩ := step_of_not_due hdue
    exact h ⟨1, exit, m, by simp only [runFor, hstop], Nat.le_refl _⟩
  | succ d ih =>
    have hcount : m.step.machine.steps ≤ m.steps + 1 := by
      by_cases hdue : m.Due
      · exact Nat.le_of_eq hdue.step_steps
      · obtain ⟨exit, hstop⟩ := step_of_not_due hdue
        rw [hstop]
        exact Nat.le_succ _
    cases hs : m.step with
    | stopped exit m₁ =>
      rw [hs] at hcount
      exact absurd ⟨1, exit, m₁, by simp only [runFor, hs], by
        exact Nat.le_trans hcount (by omega)⟩ h
    | running m₁ =>
      have hsteps₁ := (Steps.single hs).count
      obtain ⟨m', hsteps, hdue⟩ := ih (m := m₁) (by
        rintro ⟨k, exit, m', hrun, hle⟩
        refine h ⟨k + 1, exit, m', ?_, by omega⟩
        simp only [runFor, hs, hrun])
      exact ⟨m', .cons hs hsteps, hdue⟩

theorem runFor_cutShort (hm : m.config.maxSteps = none) (hn : m.steps ≤ n)
    (h : ¬ EndsWithin n m) :
    ∃ k mₙ e l, Steps (n - m.steps) m mₙ ∧
      (m.withMaxSteps (some n)).runFor k = some (.faulted e, l) ∧ CutShort n mₙ e l := by
  obtain ⟨mₙ, hsteps, hdue⟩ := steps_of_not_endsWithin hn h
  have hcount : mₙ.steps = n := by
    have := hsteps.count
    omega
  obtain ⟨e, l, hstop, hcut⟩ := hdue.step_at_limit
  rw [hcount] at hstop hcut
  have hlimited := hsteps.withMaxSteps hm (Nat.le_of_eq hcount)
  exact ⟨_, mₙ, e, l, hsteps,
    runFor_eq_some_iff.mpr ⟨_, _, Nat.lt_succ_self _, hlimited, hstop⟩, hcut⟩

/-! ## Calls under a limit -/

variable {name : String} {r : Routine} {result : Except Fault Value}

theorem answers_iff (hr : m.routines.get? name = some r)
    (haccepts : ∀ n r, m.output.refusal n r = none) : m.Answers name result m' ↔
      ∃ k exit m₁, (m.entered r).runFor k = some (exit, m₁) ∧ exit.value = result ∧
        m' = { m₁ with output := m₁.output.tick } := by
  simp only [Answers, callEntry_eq hr, Option.map_eq_some_iff, Prod.exists]
  constructor
  · rintro ⟨k, exit, m₁, hrun, hconclude⟩
    have haccepts₁ : ∀ n r, m₁.output.refusal n r = none :=
      (runFor_sameSetting hrun).refusal ▸ haccepts
    rw [conclude_of_accepting haccepts₁] at hconclude
    obtain ⟨rfl, rfl⟩ := Prod.mk.inj hconclude
    exact ⟨k, exit, m₁, hrun, rfl, rfl⟩
  · rintro ⟨k, exit, m₁, hrun, rfl, rfl⟩
    have haccepts₁ : ∀ n r, m₁.output.refusal n r = none :=
      (runFor_sameSetting hrun).refusal ▸ haccepts
    exact ⟨k, exit, m₁, hrun, conclude_of_accepting haccepts₁ exit⟩

theorem answers_withMaxSteps (hm : m.config.maxSteps = none) (hr : m.routines.get? name = some r)
    (haccepts : ∀ n r, m.output.refusal n r = none) (h : m.Answers name result m')
    (hn : m'.steps ≤ n) :
    (m.withMaxSteps (some n)).Answers name result (m'.withMaxSteps (some n)) := by
  obtain ⟨k, exit, m₁, hrun, hvalue, rfl⟩ := (answers_iff hr haccepts).mp h
  have hlimited := runFor_withMaxSteps (m := m.entered r) hm hrun hn
  exact (answers_iff (m := m.withMaxSteps (some n)) hr haccepts).mpr
    ⟨k, exit, m₁.withMaxSteps (some n), hlimited, hvalue, rfl⟩

theorem answers_cutShort (hm : m.config.maxSteps = none) (hr : m.routines.get? name = some r)
    (haccepts : ∀ n r, m.output.refusal n r = none)
    (h : ¬ ∃ result m', m.Answers name result m' ∧ m'.steps ≤ n) :
    ∃ mₙ e l, Steps n (m.entered r) mₙ ∧ (m.withMaxSteps (some n)).Answers name (.error e) l ∧
      CutShort n mₙ e l := by
  have hnot : ¬ EndsWithin n (m.entered r) := by
    rintro ⟨k, exit, m₁, hrun, hn⟩
    exact h ⟨_, _, (answers_iff hr haccepts).mpr ⟨k, exit, m₁, hrun, rfl, rfl⟩, hn⟩
  obtain ⟨k, mₙ, e, l, hsteps, hrun, hcut⟩ :=
    runFor_cutShort (m := m.entered r) hm (Nat.zero_le n) hnot
  refine ⟨mₙ, e, { l with output := l.output.tick }, hsteps, ?_, ?_⟩
  · exact (answers_iff (m := m.withMaxSteps (some n)) hr haccepts).mpr ⟨k, _, l, hrun, rfl, rfl⟩
  · exact ⟨hcut.cause, hcut.allowed, hcut.steps, hcut.text, hcut.heap, hcut.input⟩

/-! ## Sessions under a limit -/

variable {code : Array Instruction} {state : Except Fault SessionState}
  {pieces : List (Array Instruction)} {states : List (Except Fault SessionState)}

theorem settle_withMaxSteps (haccepts : ∀ n r, m.output.refusal n r = none) (exit : Exit) :
    (m.withMaxSteps limit).settle exit =
      ((m.settle exit).1, (m.settle exit).2.withMaxSteps limit) := by
  rw [settle_of_accepts haccepts, settle_of_accepts (m := m.withMaxSteps limit) haccepts]
  cases exit <;> rfl

theorem settle_keeps (haccepts : ∀ n r, m.output.refusal n r = none)
    (h : m.settle exit = (state, m')) :
    m'.steps = m.steps ∧ m'.config = m.config ∧ m'.output = m.output.tick := by
  rw [settle_of_accepts haccepts] at h
  cases exit <;> cases h <;> exact ⟨rfl, rfl, rfl⟩

theorem over_of_not_open (h : ¬ ∃ f, m.session = true ∧ m.frames = [f]) : m.Over := by
  rw [over_iff]
  intro hs hd
  obtain ⟨f, hf⟩ := List.length_eq_one_iff.mp hd
  exact h ⟨f, hs, hf⟩

theorem Over.takes (h : m.Over) : m.Takes code (.error (.detached .noSession)) m := ⟨0, h 0 code⟩

theorem Over.eq_of_takes (h : m.Over) (ht : m.Takes code state m') :
    state = .error (.detached .noSession) ∧ m' = m := by
  obtain ⟨fuel, ht⟩ := ht
  rw [h fuel code] at ht
  cases ht
  exact ⟨rfl, rfl⟩

theorem takes_keeps (haccepts : ∀ n r, m.output.refusal n r = none) (h : m.Takes code state m') :
    m.steps ≤ m'.steps ∧ m'.config = m.config ∧ ∀ n r, m'.output.refusal n r = none := by
  by_cases hopen : ∃ f, m.session = true ∧ m.frames = [f]
  · obtain ⟨f, hs, hf⟩ := hopen
    obtain ⟨k, exit, m₁, hrun, hsettle⟩ := (takes_iff_run hs hf).mp h
    have hset := runFor_sameSetting hrun
    have haccepts₁ : ∀ n r, m₁.output.refusal n r = none := hset.refusal ▸ haccepts
    obtain ⟨hsteps, hconfig, hout⟩ := settle_keeps haccepts₁ hsettle
    refine ⟨?_, hconfig.trans hset.config, ?_⟩
    · rw [hsteps]
      exact runFor_steps_le (m := m.fedWith f code) hrun
    · rw [hout]
      exact haccepts₁
  · obtain ⟨_, rfl⟩ := (over_of_not_open hopen).eq_of_takes h
    exact ⟨Nat.le_refl _, rfl, haccepts⟩

theorem takes_withMaxSteps (hm : m.config.maxSteps = none)
    (haccepts : ∀ n r, m.output.refusal n r = none) (h : m.Takes code state m')
    (hn : m'.steps ≤ n) :
    (m.withMaxSteps (some n)).Takes code state (m'.withMaxSteps (some n)) := by
  by_cases hopen : ∃ f, m.session = true ∧ m.frames = [f]
  · obtain ⟨f, hs, hf⟩ := hopen
    obtain ⟨k, exit, m₁, hrun, hsettle⟩ := (takes_iff_run hs hf).mp h
    have haccepts₁ : ∀ n r, m₁.output.refusal n r = none :=
      (runFor_sameSetting hrun).refusal ▸ haccepts
    have hsteps := (settle_keeps haccepts₁ hsettle).1
    refine (takes_iff_run (m := m.withMaxSteps (some n)) hs hf).mpr
      ⟨k, exit, m₁.withMaxSteps (some n), ?_, ?_⟩
    · exact runFor_withMaxSteps (m := m.fedWith f code) hm hrun (hsteps ▸ hn)
    · rw [settle_withMaxSteps haccepts₁, hsettle]
  · obtain ⟨rfl, rfl⟩ := (over_of_not_open hopen).eq_of_takes h
    exact (over_of_not_open (m := m'.withMaxSteps (some n)) hopen).takes

theorem takes_cutShort (hm : m.config.maxSteps = none)
    (haccepts : ∀ n r, m.output.refusal n r = none) (hn : m.steps ≤ n)
    (h : ¬ ∃ state m', m.Takes code state m' ∧ m'.steps ≤ n) :
    ∃ f mₙ e l, m.session = true ∧ m.frames = [f] ∧ Steps (n - m.steps) (m.fedWith f code) mₙ ∧
      (m.withMaxSteps (some n)).Takes code (.error e) l ∧ CutShort n mₙ e l ∧ l.Over := by
  by_cases hopen : ∃ f, m.session = true ∧ m.frames = [f]
  · obtain ⟨f, hs, hf⟩ := hopen
    have hnot : ¬ EndsWithin n (m.fedWith f code) := by
      rintro ⟨k, exit, m₁, hrun, hle⟩
      have haccepts₁ : ∀ n r, m₁.output.refusal n r = none :=
        (runFor_sameSetting hrun).refusal ▸ haccepts
      refine h ⟨_, _, (takes_iff_run hs hf).mpr ⟨k, exit, m₁, hrun, rfl⟩, ?_⟩
      rw [(settle_keeps haccepts₁ rfl).1]
      exact hle
    obtain ⟨k, mₙ, e, l, hsteps, hrun, hcut⟩ :=
      runFor_cutShort (m := m.fedWith f code) hm hn hnot
    have haccepts₁ : ∀ n r, l.output.refusal n r = none :=
      (runFor_sameSetting hrun).refusal ▸ haccepts
    refine ⟨f, mₙ, e, { l with output := l.output.tick, session := false, frames := [] }, hs, hf,
      hsteps, ?_, ?_, over_of_session rfl⟩
    · exact (takes_iff_run (m := m.withMaxSteps (some n)) hs hf).mpr
        ⟨k, _, l, hrun, settle_of_accepts haccepts₁ _⟩
    · exact ⟨hcut.cause, hcut.allowed, hcut.steps, hcut.text, hcut.heap, hcut.input⟩
  · exact absurd ⟨_, m, (over_of_not_open hopen).takes, hn⟩ h

theorem Over.feeds (h : m.Over) (pieces : List (Array Instruction)) :
    Feeds m pieces (pieces.map fun _ => .error (.detached .noSession)) m := by
  induction pieces with
  | nil => exact .nil m
  | cons piece pieces ih => exact .cons h.takes ih

theorem Feeds.steps_le (h : Feeds m pieces states m')
    (haccepts : ∀ n r, m.output.refusal n r = none) : m.steps ≤ m'.steps := by
  induction h with
  | nil => exact Nat.le_refl _
  | cons h _ ih =>
    obtain ⟨hle, _, haccepts₁⟩ := takes_keeps haccepts h
    exact Nat.le_trans hle (ih haccepts₁)

theorem Feeds.withMaxSteps (h : Feeds m pieces states m') (hm : m.config.maxSteps = none)
    (haccepts : ∀ n r, m.output.refusal n r = none) (hn : m'.steps ≤ n) :
    Feeds (m.withMaxSteps (some n)) pieces states (m'.withMaxSteps (some n)) := by
  induction h with
  | nil => exact .nil _
  | cons h hrest ih =>
    obtain ⟨_, hconfig, haccepts₁⟩ := takes_keeps haccepts h
    have hle := Nat.le_trans (hrest.steps_le haccepts₁) hn
    exact .cons (takes_withMaxSteps hm haccepts h hle) (ih (hconfig ▸ hm) haccepts₁ hn)

/-- A session that exceeds the limit is fed alike up to the piece in which it does. -/
theorem feeds_cutShort (hm : m.config.maxSteps = none)
    (haccepts : ∀ n r, m.output.refusal n r = none) (hn : m.steps ≤ n)
    (h : ¬ ∃ states m', Feeds m pieces states m' ∧ m'.steps ≤ n) :
    ∃ before piece after states u f mₙ e l, pieces = before ++ piece :: after ∧
      Feeds m before states u ∧ u.session = true ∧ u.frames = [f] ∧
      Steps (n - u.steps) (u.fedWith f piece) mₙ ∧ CutShort n mₙ e l ∧
      Feeds (m.withMaxSteps (some n)) pieces
        (states ++ .error e :: after.map fun _ => .error (.detached .noSession)) l := by
  induction pieces generalizing m with
  | nil => exact absurd ⟨[], m, .nil m, hn⟩ h
  | cons piece pieces ih =>
    by_cases hwithin : ∃ state m', m.Takes piece state m' ∧ m'.steps ≤ n
    · obtain ⟨state, m₁, htakes, hn₁⟩ := hwithin
      obtain ⟨_, hconfig, haccepts₁⟩ := takes_keeps haccepts htakes
      have hrest : ¬ ∃ states m', Feeds m₁ pieces states m' ∧ m'.steps ≤ n := by
        rintro ⟨states, m', hfeeds, hle⟩
        exact h ⟨_, m', .cons htakes hfeeds, hle⟩
      obtain ⟨before, piece', after, states, u, f, mₙ, e, l, rfl, hfeeds, hs, hf, hsteps, hcut,
        hlimited⟩ := ih (hconfig ▸ hm) haccepts₁ hn₁ hrest
      exact ⟨piece :: before, piece', after, state :: states, u, f, mₙ, e, l, rfl,
        .cons htakes hfeeds, hs, hf, hsteps, hcut,
        .cons (takes_withMaxSteps hm haccepts htakes hn₁) hlimited⟩
    · obtain ⟨f, mₙ, e, l, hs, hf, hsteps, htakes, hcut, hover⟩ :=
        takes_cutShort hm haccepts hn hwithin
      exact ⟨[], piece, pieces, [], m, f, mₙ, e, l, rfl, .nil m, hs, hf, hsteps, hcut,
        .cons htakes (hover.feeds pieces)⟩

/-- A limit of `n` steps does not show where it is kept to, and what exceeds it stops in the state
behind `n` instructions. So it is for the call of a routine, and for a session that is fed any
number of pieces of code, whose instructions are counted from its start. -/
theorem step_limit_is_transparent (m : Machine) (haccepts : ∀ n r, m.output.refusal n r = none)
    (n : Nat) :
    (∀ name r, m.routines.get? name = some r →
      (∀ result u, (m.withMaxSteps none).Answers name result u → u.steps ≤ n →
        (m.withMaxSteps (some n)).Answers name result (u.withMaxSteps (some n))) ∧
      ((¬ ∃ result u, (m.withMaxSteps none).Answers name result u ∧ u.steps ≤ n) →
        ∃ mₙ e l, Steps n ((m.withMaxSteps none).entered r) mₙ ∧
          (m.withMaxSteps (some n)).Answers name (.error e) l ∧ CutShort n mₙ e l)) ∧
    ∀ name pieces,
      (∀ states u, Feeds ((m.withMaxSteps none).startSession name) pieces states u → u.steps ≤ n →
        Feeds ((m.withMaxSteps (some n)).startSession name) pieces states
          (u.withMaxSteps (some n))) ∧
      ((¬ ∃ states u, Feeds ((m.withMaxSteps none).startSession name) pieces states u ∧
          u.steps ≤ n) →
        ∃ before piece after states u f mₙ e l, pieces = before ++ piece :: after ∧
          Feeds ((m.withMaxSteps none).startSession name) before states u ∧ u.session = true ∧
          u.frames = [f] ∧ Steps (n - u.steps) (u.fedWith f piece) mₙ ∧ CutShort n mₙ e l ∧
          Feeds ((m.withMaxSteps (some n)).startSession name) pieces
            (states ++ .error e :: after.map fun _ => .error (.detached .noSession)) l) := by
  refine ⟨?_, ?_⟩
  · intro name r hr
    refine ⟨?_, ?_⟩
    · intro result u h hn
      exact answers_withMaxSteps (m := m.withMaxSteps none) rfl hr haccepts h hn
    · intro h
      exact answers_cutShort (m := m.withMaxSteps none) rfl hr haccepts h
  · intro name pieces
    refine ⟨?_, ?_⟩
    · intro states u h hn
      exact h.withMaxSteps rfl haccepts hn
    · intro h
      exact feeds_cutShort (m := (m.withMaxSteps none).startSession name) rfl haccepts
        (Nat.zero_le n) h

def promptAndEndless : Machine where
  routines := [("main", ⟨"main", 0, #[.push .nil, .ret]⟩), ("loop", ⟨"loop", 0, #[.jump 0]⟩)]

theorem limit_of_two_steps_is_transparent :
    (∃ u, (promptAndEndless.withMaxSteps (some 2)).Answers "main" (.ok .nil) u ∧ u.steps = 2) ∧
    (∃ e l, (promptAndEndless.withMaxSteps (some 2)).Answers "loop" (.error e) l ∧
      e.cause = .stepLimitExceeded 2 ∧ l.steps = 3) ∧
    (∃ u, Feeds ((promptAndEndless.withMaxSteps (some 2)).startSession "top")
      [#[.nop], #[.nop]] [.ok .paused, .ok .paused] u ∧ u.steps = 2) ∧
    ∃ states e l, Feeds ((promptAndEndless.withMaxSteps (some 2)).startSession "top")
      [#[.jump 0], #[.nop]] states l ∧ .error e ∈ states ∧ e.cause = .stepLimitExceeded 2 ∧
        l.steps = 3 := by
  have haccepts : ∀ n r, promptAndEndless.output.refusal n r = none := fun _ _ => rfl
  obtain ⟨hcalls, hsessions⟩ := step_limit_is_transparent promptAndEndless haccepts 2
  have hendless : ∀ {m m₁ m₂ m₃ : Machine}, m.step = .running m₁ → m₁.step = .running m₂ →
      m₂.step = .running m₃ → ¬ EndsWithin 2 m := by
    intro m m₁ m₂ m₃ h₁ h₂ h₃
    apply not_endsWithin_of_steps (.cons h₁ (.cons h₂ (.single h₃)))
    omega
  refine ⟨?_, ?_, ?_, ?_⟩
  · exact ⟨_, (hcalls "main" _ rfl).1 (.ok .nil) _ ⟨3, rfl⟩ (Nat.le_refl 2), rfl⟩
  · have hnot : ¬ ∃ result u,
        (promptAndEndless.withMaxSteps none).Answers "loop" result u ∧ u.steps ≤ 2 := by
      rintro ⟨result, u, h, hn⟩
      obtain ⟨k, exit, m₁, hrun, _, rfl⟩ := (answers_iff rfl haccepts).mp h
      exact hendless rfl rfl rfl ⟨k, exit, m₁, hrun, hn⟩
    obtain ⟨_, e, l, _, hanswers, hcut⟩ := (hcalls "loop" _ rfl).2 hnot
    exact ⟨e, l, hanswers, hcut.cause, hcut.steps⟩
  · have hfeeds : Feeds ((promptAndEndless.withMaxSteps none).startSession "top")
        [#[.nop], #[.nop]] [.ok .paused, .ok .paused] _ :=
      .cons ⟨2, rfl⟩ (.cons ⟨2, rfl⟩ (.nil _))
    exact ⟨_, (hsessions "top" _).1 _ _ hfeeds (Nat.le_refl 2), rfl⟩
  · have hnot : ¬ ∃ states u, Feeds ((promptAndEndless.withMaxSteps none).startSession "top")
        [#[.jump 0], #[.nop]] states u ∧ u.steps ≤ 2 := by
      rintro ⟨states, u, h, hn⟩
      obtain _ | ⟨htakes, hrest⟩ := h
      obtain ⟨k, exit, m₁, hrun, hsettle⟩ := (takes_iff_run rfl rfl).mp htakes
      have haccepts₁ : ∀ n r, m₁.output.refusal n r = none :=
        (runFor_sameSetting hrun).refusal ▸ haccepts
      have hle := hrest.steps_le (takes_keeps (fun _ _ => rfl) htakes).2.2
      rw [(settle_keeps haccepts₁ hsettle).1] at hle
      exact hendless rfl rfl rfl ⟨k, exit, m₁, hrun, Nat.le_trans hle hn⟩
    obtain ⟨_, _, _, _, _, _, _, e, l, _, _, _, _, _, hcut, hfeeds⟩ := (hsessions "top" _).2 hnot
    exact ⟨_, e, l, hfeeds, by simp, hcut.cause, hcut.steps⟩

end Machine

end RecordLang

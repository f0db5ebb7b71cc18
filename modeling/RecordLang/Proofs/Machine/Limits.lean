import RecordLang.Proofs.Machine.Transition

/-! # Machines with limits

A machine with limits takes the steps of one without, until it meets a limit.
-/

namespace RecordLang

def Cause.isLimit : Cause → Bool
  | .callDepthExceeded _ | .stepLimitExceeded _ => true
  | _ => false

def Outcome.map (g : Machine → Machine) : Outcome → Outcome
  | .next m => .next (g m)
  | .finished v m => .finished v (g m)
  | .failed c m => .failed c (g m)

def Progress.map (g : Machine → Machine) : Progress → Progress
  | .running m => .running (g m)
  | .stopped exit m => .stopped exit (g m)

namespace Machine

def unlimited (m : Machine) : Machine := { m with config := { verify := m.config.verify } }

def retuned (φ : Config → Config) (σ : Nat → Nat) (m : Machine) : Machine :=
  { m with config := φ m.config, steps := σ m.steps }

def Due (m : Machine) : Prop := ∃ f callers i, m.frames = f :: callers ∧ f.instr? = some i

variable {α : Type} {m : Machine} {f : Frame}

section Retuned

variable {φ : Config → Config} {σ : Nat → Nat}

theorem attempt_retuned {r : Except Cause α} {k k' : α → Outcome}
    (hk : ∀ a, k' a = (k a).map (retuned φ σ)) :
    (m.retuned φ σ).attempt f r k' = (m.attempt f r k).map (retuned φ σ) := by
  cases r with
  | ok a => exact hk a
  | error c => rfl

theorem operand_retuned {k k' : Value → Frame → Outcome}
    (hk : ∀ v f, k' v f = (k v f).map (retuned φ σ)) :
    (m.retuned φ σ).operand f k' = (m.operand f k).map (retuned φ σ) :=
  attempt_retuned fun (v, f) => hk v f

theorem result_retuned (r : Except Cause Value) :
    (m.retuned φ σ).result f r = (m.result f r).map (retuned φ σ) :=
  attempt_retuned fun _ => rfl

theorem unary_retuned (op : Value → Except Cause Value) :
    (m.retuned φ σ).unary f op = (m.unary f op).map (retuned φ σ) :=
  operand_retuned fun _ _ => result_retuned _

theorem call_retuned
    (h : (φ m.config).maxDepth.filter (· ≤ m.depth) = m.config.maxDepth.filter (· ≤ m.depth))
    (name : String) :
    (m.retuned φ σ).call f name = (m.call f name).map (retuned φ σ) := by
  have hroutines : (m.retuned φ σ).routines = m.routines := rfl
  have hdepth : (m.retuned φ σ).config.maxDepth.filter (· ≤ (m.retuned φ σ).depth) =
      m.config.maxDepth.filter (· ≤ m.depth) := h
  unfold Machine.call
  rw [hroutines, hdepth]
  cases m.routines.get? name with
  | none => rfl
  | some r =>
    cases m.config.maxDepth.filter (· ≤ m.depth) with
    | some limit => rfl
    | none =>
      simp only
      split <;> rfl

theorem exec_retuned (i : Instruction)
    (hcall : ∀ name, i = .call name →
      (m.retuned φ σ).call f name = (m.call f name).map (retuned φ σ)) :
    (m.retuned φ σ).exec f i = (m.exec f i).map (retuned φ σ) := by
  cases i with
  | call name => exact hcall name rfl
  | push | jump | alloc | nop => rfl
  | neg | not | length | toInt | toDouble | toText => exact unary_retuned _
  | load n => exact result_retuned _
  | pop | dup =>
    simp only [exec]
    apply operand_retuned
    exact fun _ _ => rfl
  | swap =>
    simp only [exec]
    apply operand_retuned
    intro b f
    apply operand_retuned
    exact fun _ _ => rfl
  | store n =>
    simp only [exec]
    apply operand_retuned
    intro v f
    apply attempt_retuned
    exact fun _ => rfl
  | binary op =>
    simp only [exec]
    apply operand_retuned
    intro b f
    apply operand_retuned
    exact fun _ _ => result_retuned _
  | jumpIfFalse t =>
    simp only [exec]
    apply operand_retuned
    intro v f
    split <;> rfl
  | ret =>
    simp only [exec]
    apply operand_retuned
    intro v _
    have hframes : (m.retuned φ σ).frames = m.frames := rfl
    rw [hframes]
    split <;> rfl
  | write =>
    simp only [exec]
    apply operand_retuned
    intro v f
    have houtput : (m.retuned φ σ).output = m.output := rfl
    rw [houtput]
    split <;> rfl
  | read =>
    show (m.retuned φ σ).read f = (m.read f).map (retuned φ σ)
    have houtput : (m.retuned φ σ).output = m.output := rfl
    have hinput : (m.retuned φ σ).input = m.input := rfl
    unfold Machine.read
    rw [houtput, hinput]
    split
    next => rfl
    next => split <;> rfl
  | charAt =>
    simp only [exec]
    apply operand_retuned
    intro v f
    apply attempt_retuned
    intro s
    apply operand_retuned
    intro u f
    apply attempt_retuned
    exact fun _ => result_retuned _
  | free =>
    simp only [exec]
    apply operand_retuned
    intro v f
    apply attempt_retuned
    intro id
    apply attempt_retuned
    exact fun _ => rfl
  | getField name =>
    simp only [exec]
    apply operand_retuned
    intro v f
    apply attempt_retuned
    exact fun _ => result_retuned _
  | setField name =>
    simp only [exec]
    apply operand_retuned
    intro u f
    apply operand_retuned
    intro v f
    apply attempt_retuned
    intro id
    apply attempt_retuned
    exact fun _ => rfl

theorem progress_retuned (o : Outcome) (pc : Nat) (i : Instruction) :
    (o.map (retuned φ σ)).progress pc i = (o.progress pc i).map (retuned φ σ) := by
  cases o <;> rfl

theorem step_retuned_of_not_due (h : ¬ m.Due) :
    (m.retuned φ σ).step = m.step.map (retuned φ σ) := by
  have hframes : (m.retuned φ σ).frames = m.frames := rfl
  have hsession : (m.retuned φ σ).session = m.session := rfl
  cases hf : m.frames with
  | nil =>
    simp only [Machine.step, hframes, hf]
    rfl
  | cons f callers =>
    cases hi : f.instr? with
    | some i => exact absurd ⟨f, callers, i, hf, hi⟩ h
    | none =>
      simp only [Machine.step, hframes, hsession, hf, hi]
      split <;> rfl

end Retuned

section Unlimited

theorem unlimited_eq_retuned : unlimited = retuned (fun c => { verify := c.verify }) id := rfl

theorem call_unlimited (name : String) :
    (∃ c m', m.call f name = .failed c m' ∧ c.isLimit = true) ∨
      m.unlimited.call f name = (m.call f name).map unlimited := by
  cases hlimit : m.config.maxDepth.filter (· ≤ m.depth) with
  | none =>
    rw [unlimited_eq_retuned]
    right
    apply call_retuned
    exact hlimit.symm
  | some limit =>
    unfold Machine.call
    have hroutines : m.unlimited.routines = m.routines := rfl
    rw [hroutines]
    cases hr : m.routines.get? name with
    | none => exact .inr rfl
    | some r => exact .inl ⟨_, _, by rw [hlimit]; rfl, rfl⟩

theorem exec_unlimited (i : Instruction) :
    (∃ c m', m.exec f i = .failed c m' ∧ c.isLimit = true) ∨
      m.unlimited.exec f i = (m.exec f i).map unlimited := by
  by_cases hi : ∃ name, i = .call name
  · obtain ⟨name, rfl⟩ := hi
    exact call_unlimited name
  · rw [unlimited_eq_retuned]
    exact .inr (exec_retuned i fun name h => absurd ⟨name, h⟩ hi)

theorem dispatch_unlimited (i : Instruction) :
    (∃ c m', m.dispatch f i = .failed c m' ∧ c.isLimit = true) ∨
      m.unlimited.dispatch f i = (m.dispatch f i).map unlimited := by
  have hsteps : m.unlimited.config.maxSteps = none := rfl
  unfold dispatch
  rw [hsteps, Option.filter_none]
  cases m.config.maxSteps.filter (· < m.steps) with
  | some limit => exact .inl ⟨_, _, rfl, rfl⟩
  | none => exact exec_unlimited i

theorem progress_unlimited (o : Outcome) (pc : Nat) (i : Instruction) :
    (o.map unlimited).progress pc i = (o.progress pc i).map unlimited := by
  rw [unlimited_eq_retuned, progress_retuned]

theorem step_unlimited (m : Machine) :
    (∃ e m', m.step = .stopped (.faulted e) m' ∧ e.cause.isLimit = true) ∨
      m.unlimited.step = m.step.map unlimited := by
  by_cases hdue : m.Due
  · obtain ⟨f, callers, i, hf, hi⟩ := hdue
    have hframes : m.unlimited.frames = m.frames := rfl
    rw [step_eq hf hi, step_eq (hframes.trans hf) hi]
    rcases dispatch_unlimited (m := m.counted f callers) (f := f.advance) i with
      ⟨c, m', hfail, hc⟩ | hmap
    · left
      rw [hfail]
      exact ⟨_, _, rfl, hc⟩
    · right
      rw [← progress_unlimited, ← hmap]
      rfl
  · right
    rw [unlimited_eq_retuned]
    exact step_retuned_of_not_due hdue

variable {m' : Machine} {n : Nat}

theorem Steps.unlimited (h : Steps n m m') : Steps n m.unlimited m'.unlimited := by
  induction h with
  | refl m => exact .refl _
  | @cons n m m₁ m₂ hs _ ih =>
    refine .cons ?_ ih
    rcases step_unlimited m with ⟨e, m', hstop, _⟩ | hmap
    · rw [hs] at hstop
      cases hstop
    · rw [hmap, hs]
      rfl

/-- A run that has ended ended at a limit, or it ends in the same way without limits. -/
theorem runFor_unlimited {exit : Exit} (h : m.runFor n = some (exit, m')) :
    (∃ e, exit = .faulted e ∧ e.cause.isLimit = true) ∨
      m.unlimited.runFor n = some (exit, m'.unlimited) := by
  obtain ⟨k, m₁, hk, hsteps, hstop⟩ := runFor_eq_some_iff.mp h
  rcases step_unlimited m₁ with ⟨e, m', hfail, he⟩ | hmap
  · rw [hstop] at hfail
    cases hfail
    exact .inl ⟨e, rfl, he⟩
  · right
    rw [hstop] at hmap
    exact runFor_eq_some_iff.mpr ⟨k, m₁.unlimited, hk, hsteps.unlimited, hmap⟩

end Unlimited

end Machine

end RecordLang

import RecordLang.Proofs.Machine.Calls

/-! # Sessions that have ended

A session ends when its code returns or fails. It is over then, and stays so until another one is
started, with one exception: if the code has failed and the flush behind it is refused, the frames
stay, and if there is only one of them, the session takes more code.
-/

namespace RecordLang.Machine

/-- The machine refuses code for a session and does nothing with it. -/
def Over (m : Machine) : Prop :=
  ∀ fuel code, m.extendSession fuel code = some (.error (.detached .noSession), m)

/-- The machine has been used further, but no session has been started. -/
inductive Later : Machine → Machine → Prop where
  | refl (m : Machine) : Later m m
  | load {m m₁ m₂ : Machine} {b : Bytecode} (h : m.load b = .ok m₁) (hl : Later m₁ m₂) : Later m m₂
  | entry {m m₁ m₂ : Machine} {fuel : Nat} {name : String} {result : Except Fault Value}
      (h : m.callEntry fuel name = some (result, m₁)) (hl : Later m₁ m₂) : Later m m₂
  | extend {m m₁ m₂ : Machine} {code : Array Instruction} {result : Except Fault SessionState}
      (h : m.Takes code result m₁) (hl : Later m₁ m₂) : Later m m₂

variable {m m' m₁ : Machine} {f : Frame} {code : Array Instruction} {fuel : Nat} {exit : Exit}

/-- A session takes code exactly if it has not ended and has a single frame. -/
theorem over_iff : m.Over ↔ (m.session = true → m.depth ≠ 1) := by
  constructor
  · intro h hs hd
    obtain ⟨f, hf⟩ := List.length_eq_one_iff.mp hd
    have hover := h 0 #[]
    rw [extendSession_eq hs hf] at hover
    cases hover
  · intro h fuel code
    unfold extendSession
    split
    next f hs hf => exact absurd (congrArg List.length hf) (h hs)
    next => rfl

theorem over_of_session (h : m.session = false) : m.Over := by
  rw [over_iff, h]
  nofun

theorem Over.later (hm : m.Over) (h : Later m m') : m'.Over := by
  induction h with
  | refl => exact hm
  | load h _ ih =>
    apply ih
    rw [load_routines h]
    rw [over_iff] at hm ⊢
    exact hm
  | @entry m m₁ m₂ fuel name result h _ ih =>
    apply ih
    cases hr : m.routines.get? name with
    | none =>
      rw [callEntry, enter, hr] at h
      cases h
      exact hm
    | some r =>
      rw [callEntry_eq hr] at h
      obtain ⟨⟨exit, m₀⟩, hrun, hconclude⟩ := Option.map_eq_some_iff.mp h
      apply over_of_session
      have hstate := (conclude_snd m₀ exit).trans m₀.flush_snd
      rw [show m₀.conclude exit = (result, m₁) from hconclude] at hstate
      rw [show m₁ = _ from hstate]
      exact (runFor_sameSetting hrun).session
  | @extend m m₁ m₂ code result h _ ih =>
    obtain ⟨fuel, h⟩ := h
    rw [hm fuel code] at h
    cases h
    exact ih hm

theorem depth_of_faulted {e : Fault} (h : (m.fedWith f code).runFor fuel = some (.faulted e, m₁)) :
    m₁.depth ≠ 0 := by
  obtain ⟨n, m₀, _, hsteps, hstop⟩ := runFor_eq_some_iff.mp h
  have hne := Reaches.frames_ne_nil ⟨n, hsteps⟩ (List.cons_ne_nil _ _)
  obtain ⟨g, callers, hg⟩ := List.exists_cons_of_ne_nil hne
  obtain ⟨⟨g', hg', _⟩, _⟩ := step_faulted hg hstop
  rw [depth, hg']
  exact Nat.succ_ne_zero _

theorem depth_of_finished {v : Value}
    (h : (m.fedWith f code).runFor fuel = some (.finished v, m₁)) : m₁.depth = 0 := by
  obtain ⟨_, m₀, _, _, hstop⟩ := runFor_eq_some_iff.mp h
  rw [depth, finished_frames hstop]
  rfl

/-- When the code of a session has returned or failed, no frame is left exactly if it has returned
or the flush behind it is accepted. The session is over, until another one is started, exactly in
these cases and if more than one frame is left. -/
theorem stopped_session_is_over_unless_its_flush_is_refused (hsession : m.session = true)
    (hframes : m.frames = [f]) (hrun : (m.fedWith f code).runFor fuel = some (exit, m₁))
    (hexit : exit ≠ .paused) :
    ∃ result m', m.extendSession fuel code = some (result, m') ∧
      (m'.depth = 0 ↔ (∃ v, exit = .finished v) ∨ m₁.output.flush.1 = none) ∧
      ((∀ m₂, Later m' m₂ → m₂.Over) ↔
        (∃ v, exit = .finished v) ∨ m₁.output.flush.1 = none ∨ m₁.depth ≠ 1) := by
  have hlive : m₁.session = true := (runFor_sameSetting hrun).session.trans hsession
  have hstays : ∀ {m' : Machine}, (∀ m₂, Later m' m₂ → m₂.Over) ↔ m'.Over :=
    fun {m'} => ⟨fun h => h m' (.refl m'), fun h _ => h.later⟩
  refine ⟨(m₁.settle exit).1, (m₁.settle exit).2, ?_, ?_⟩
  · rw [extendSession_eq hsession hframes, hrun]
    rfl
  rw [hstays]
  cases hflush : m₁.output.flush with
  | mk refusal output =>
    cases refusal with
    | none =>
      rw [settle_of_flush hflush]
      cases exit with
      | paused => exact absurd rfl hexit
      | finished v =>
        have hdepth := depth_of_finished hrun
        exact ⟨by simpa [depth] using hdepth, by simpa using over_of_session rfl⟩
      | faulted e => exact ⟨by simp [depth], by simpa using over_of_session rfl⟩
    | some reason =>
      rw [settle_of_refusal hflush]
      have hover : Over { m₁ with output } ↔ m₁.depth ≠ 1 := by
        rw [over_iff]
        exact ⟨fun h => h hlive, fun h _ => h⟩
      cases exit with
      | paused => exact absurd rfl hexit
      | finished v =>
        have hdepth := depth_of_finished hrun
        exact ⟨by simpa [depth] using hdepth, by simp [hover, hdepth]⟩
      | faulted e =>
        have hdepth := depth_of_faulted hrun
        exact ⟨by simpa [depth] using hdepth, by simp [hover]⟩

/-- A session whose output accepts flushes and nothing else. -/
def unwritable : Machine :=
  (fresh {} [] { refusal := fun _ r =>
    if r = .flush then none else some "full" }).startSession "top"

theorem session_with_a_refused_write_is_over :
    ∃ e m', unwritable.extendSession 2 #[.push (.int 7), .write] = some (.error e, m') ∧
      e.cause = .io "full" ∧ m'.depth = 0 ∧ ∀ m₂, Later m' m₂ → m₂.Over := by
  obtain ⟨result, m', hextend, hdepth, hover⟩ :=
    stopped_session_is_over_unless_its_flush_is_refused (m := unwritable) rfl rfl
      (show (unwritable.fedWith _ #[.push (.int 7), .write]).runFor 2 = _ from rfl) nofun
  have hresult : result = .error ⟨.io "full", "top", 1, some .write, ["top"]⟩ := by
    have hfirst := congrArg (Option.map Prod.fst) hextend
    exact (Option.some.inj hfirst).symm
  subst hresult
  exact ⟨_, m', hextend, rfl, hdepth.mpr (.inr rfl), hover.mpr (.inr (.inl rfl))⟩

def unflushed : Machine :=
  (fresh {} [] { refusal := fun n _ => if n = 0 then some "full" else none }).startSession "top"

/-- The code of a session fails, the flush is refused, and the session takes more code. -/
theorem failed_session_goes_on_behind_a_refused_flush :
    ∃ f m₁ m₂ m₃, unflushed.session = true ∧ unflushed.frames = [f] ∧
      (unflushed.fedWith f #[.pop]).runFor 1 =
        some (.faulted ⟨.stackUnderflow, "top", 0, some .pop, ["top"]⟩, m₁) ∧
      unflushed.extendSession 1 #[.pop] = some (.error (.detached (.io "full")), m₂) ∧
      m₂.depth = 1 ∧
      m₂.extendSession 2 #[.push (.int 7), .ret] = some (.ok (.ended (.int 7)), m₃) :=
  ⟨_, _, _, _, rfl, rfl, rfl, rfl, rfl, rfl⟩

end RecordLang.Machine

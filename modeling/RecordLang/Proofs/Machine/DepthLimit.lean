import RecordLang.Proofs.Machine.Calls

/-! # The limit on the depth of calls

A call is refused when as many frames are there as the limit allows. The first frame of a run or of
a session comes without a call, so there is one frame even if the limit is zero. Otherwise the limit
is never exceeded.
-/

namespace RecordLang.Machine

variable {m m' : Machine} {f : Frame} {callers : List Frame} {d : Nat} {exit : Exit}

theorem depth_lt_of_call {name : String} (hf : m.frames = f :: callers)
    (hi : f.instr? = some (.call name)) (h : m.step = .running m')
    (hd : m.config.maxDepth = some d) : m.depth < d := by
  have hdepth : (m.counted f callers).depth = m.depth := by simp [depth, counted, hf]
  rw [step_eq hf hi] at h
  unfold dispatch at h
  split at h
  next => cases h
  next =>
    simp only [exec, call] at h
    split at h
    next => cases h
    next =>
      split at h
      next => cases h
      next hlimit =>
        rw [hdepth, show (m.counted f callers).config = m.config from rfl, hd] at hlimit
        simpa [Option.filter_some] using hlimit

theorem step_depth_le (h : m.step = .running m') (hd : m.config.maxDepth = some d) :
    m'.depth ≤ max d m.depth := by
  obtain ⟨f, callers, i, hf, hi, _, hmove⟩ := step_running h
  have hdepth : m.depth = callers.length + 1 := by
    rw [depth, hf]
    rfl
  unfold depth at hdepth ⊢
  generalize m'.frames = fs at hmove
  cases hmove with
  | stay =>
    rw [List.length_cons, hdepth]
    exact Nat.le_max_right _ _
  | enter hcall =>
    subst hcall
    have hlt := depth_lt_of_call hf hi h hd
    simp only [depth, hdepth] at hlt
    simp only [List.length_cons]
    omega
  | leave _ _ hc =>
    subst hc
    simp only [List.length_cons] at hdepth ⊢
    omega

theorem stopped_depth_le (h : m.step = .stopped exit m') : m'.depth ≤ m.depth := by
  cases exit with
  | paused => exact Nat.le_of_eq (congrArg depth (step_paused h).1)
  | finished v => simp [depth, finished_frames h]
  | faulted e =>
    cases hf : m.frames with
    | nil =>
      simp only [step, hf] at h
      cases h
      exact Nat.le_refl _
    | cons f callers =>
      obtain ⟨⟨f', hf', _⟩, _⟩ := step_faulted hf h
      simp [depth, hf, hf']

/-- The machine has at most `d` frames, as its limit demands, or a single one. -/
structure Limited (d : Nat) (m : Machine) : Prop where
  limit : m.config.maxDepth = some d
  depth : m.depth ≤ max d 1

namespace Limited

theorem of_single (hd : m.config.maxDepth = some d) (hf : m.frames = [f]) : Limited d m := by
  refine ⟨hd, ?_⟩
  rw [Machine.depth, hf]
  exact Nat.le_max_right d 1

theorem entered (hm : Limited d m) (r : Routine) : Limited d (m.entered r) :=
  .of_single hm.limit rfl

theorem fedWith (hm : Limited d m) (f : Frame) (code : Array Instruction) :
    Limited d (m.fedWith f code) :=
  .of_single hm.limit rfl

theorem step (hm : Limited d m) (h : m.step = .running m') : Limited d m' := by
  obtain ⟨_, _, _, _, _, hset, _⟩ := step_running h
  have hle := step_depth_le h hm.limit
  have hdepth := hm.depth
  exact ⟨hset.config ▸ hm.limit, by omega⟩

theorem reaches (hm : Limited d m) (h : Reaches m m') : Limited d m' :=
  h.preserves (fun _ _ hm h => hm.step h) hm

theorem stopped (hm : Limited d m) (h : m.step = .stopped exit m') : Limited d m' :=
  ⟨(step_stopped h).2.config ▸ hm.limit, Nat.le_trans (stopped_depth_le h) hm.depth⟩

theorem runFor (hm : Limited d m) {fuel : Nat} (h : m.runFor fuel = some (exit, m')) :
    Limited d m' := by
  obtain ⟨n, m₁, _, hsteps, hstop⟩ := runFor_eq_some_iff.mp h
  exact (hm.reaches ⟨n, hsteps⟩).stopped hstop

end Limited

section Uses

variable {config : Config} {input : List UInt8} {output : Output} {root : Routine}

theorem Used.limited (hd : config.maxDepth = some d) (h : Used config input output root m) :
    Limited d m := by
  induction h with
  | fresh root => exact ⟨hd, Nat.zero_le _⟩
  | @load root m m' b _ hload ih =>
    rw [load_routines hload]
    exact ⟨ih.limit, ih.depth⟩
  | @entry root r m m' name fuel result _ hr hcall ih =>
    rw [callEntry_eq hr] at hcall
    obtain ⟨⟨exit, m₁⟩, hrun, hconclude⟩ := Option.map_eq_some_iff.mp hcall
    obtain rfl : m₁.flush.2 = m' := by
      rw [← conclude_snd m₁ exit]
      exact congrArg Prod.snd hconclude
    have hend := (ih.entered r).runFor hrun
    rw [flush_snd]
    exact ⟨hend.limit, hend.depth⟩
  | start name _ ih => exact .of_single ih.limit rfl
  | @extend root m m' f code result _ hs hf htakes ih =>
    obtain ⟨fuel, exit, m₁, hrun, hsettle⟩ := (takes_iff_run hs hf).mp htakes
    have hend := (ih.fedWith f code).runFor hrun
    obtain ⟨_, hconfig, hframes⟩ := m₁.settle_snd exit
    rw [hsettle] at hconfig hframes
    refine ⟨hconfig ▸ hend.limit, ?_⟩
    rcases hframes with hframes | hframes
    · rw [depth, hframes]
      exact hend.depth
    · rw [depth, hframes]
      exact Nat.zero_le _

theorem Running.limited (hd : config.maxDepth = some d) (h : Running config input output root m) :
    Limited d m := by
  cases h with
  | entry h hr henter hreach =>
    rw [enter_eq hr] at henter
    cases henter
    exact ((h.limited hd).entered root).reaches hreach
  | extend h hs hf hreach => exact ((h.limited hd).fedWith _ _).reaches hreach

end Uses

/-- Whatever a machine with a limit of `d` frames is used for, between its runs, in each state of a
run and where a run stops there are at most `d` frames, or a single one. So the limit is kept in all
uses exactly if it is not zero. -/
theorem limit_on_frames_is_kept_from_one_on {config : Config} {d : Nat}
    (hd : config.maxDepth = some d) (input : List UInt8) (output : Output) :
    (∀ root m, Used config input output root m → m.depth ≤ max d 1) ∧
    (∀ root m, Running config input output root m →
      m.depth ≤ max d 1 ∧ ∀ exit m', m.step = .stopped exit m' → m'.depth ≤ max d 1) ∧
    ((∀ root m, Used config input output root m ∨ Running config input output root m →
      m.depth ≤ d) ↔ 1 ≤ d) := by
  refine ⟨fun root m h => (h.limited hd).depth, ?_, ?_⟩
  · intro root m h
    exact ⟨(h.limited hd).depth, fun exit m' hstop => ((h.limited hd).stopped hstop).depth⟩
  · constructor
    · intro h
      exact h _ _ (.inl (.start "top" (.fresh ⟨"top", 0, #[]⟩)))
    · intro hone root m h
      have hdepth : m.depth ≤ max d 1 := by
        rcases h with h | h
        · exact (h.limited hd).depth
        · exact (h.limited hd).depth
      omega

def oneCall : Bytecode := [⟨"main", 0, #[.call "f", .ret]⟩, ⟨"f", 0, #[.push .nil, .ret]⟩]

def twoFrames : Config := { maxDepth := some 2, verify := false }

theorem one_call_keeps_a_limit_of_two :
    ∃ m, Running twoFrames [] {} ⟨"main", 0, #[.call "f", .ret]⟩ m ∧
      m.depth = 2 ∧ m.depth ≤ max 2 1 ∧
      ∀ root m', Used twoFrames [] {} root m' ∨ Running twoFrames [] {} root m' →
        m'.depth ≤ 2 := by
  have hlimit : twoFrames.maxDepth = some 2 := rfl
  obtain ⟨_, hrunning, hkept⟩ := limit_on_frames_is_kept_from_one_on hlimit [] {}
  have hused : Used twoFrames [] {} ⟨"main", 0, #[]⟩
      { fresh twoFrames [] {} with routines := oneCall.addTo [] } :=
    .load (b := oneCall) (.fresh _) rfl
  have hcalled : Running twoFrames [] {} ⟨"main", 0, #[.call "f", .ret]⟩ _ :=
    .entry hused (show Table.get? _ "main" = _ from rfl) rfl (.single rfl)
  exact ⟨_, hcalled, rfl, (hrunning _ _ hcalled).1, hkept.mpr (by decide)⟩

/-- With a limit of no frames, a session has one. -/
theorem session_exceeds_a_limit_of_zero :
    ∃ root m, Used { maxDepth := some 0 } [] {} root m ∧
      m = (fresh { maxDepth := some 0 } [] {}).startSession "top" ∧ ¬ m.depth ≤ 0 :=
  ⟨_, _, .start "top" (.fresh ⟨"top", 0, #[]⟩), rfl, by decide⟩

end RecordLang.Machine

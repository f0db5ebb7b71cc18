import RecordLang.Machine.Run

/-! # Reachable states

A run is a row of steps that ends where a step stops. What every step preserves holds in all states
that a run comes through.
-/

namespace RecordLang.Machine

def fresh (config : Config) (input : List UInt8) (output : Output) : Machine :=
  { config, input, output }

/-- The machine takes exactly `n` steps from the first state to the second. -/
inductive Steps : Nat → Machine → Machine → Prop where
  | refl (m : Machine) : Steps 0 m m
  | cons {n : Nat} {m m₁ m₂ : Machine} (h : m.step = .running m₁) (hs : Steps n m₁ m₂) :
      Steps (n + 1) m m₂

def Reaches (m m' : Machine) : Prop := ∃ n, Steps n m m'

variable {m m₁ m₂ m₃ : Machine} {n k : Nat}

theorem Steps.single (h : m.step = .running m₁) : Steps 1 m m₁ := .cons h (.refl _)

theorem Steps.trans (h : Steps n m₁ m₂) (h' : Steps k m₂ m₃) : Steps (n + k) m₁ m₃ := by
  induction h with
  | refl => simpa using h'
  | cons hs _ ih =>
    rw [Nat.add_right_comm]
    exact .cons hs (ih h')

theorem Reaches.refl (m : Machine) : Reaches m m := ⟨0, .refl m⟩

theorem Reaches.trans (h : Reaches m₁ m₂) (h' : Reaches m₂ m₃) : Reaches m₁ m₃ := by
  obtain ⟨n, h⟩ := h
  obtain ⟨k, h'⟩ := h'
  exact ⟨n + k, h.trans h'⟩

theorem Reaches.single (h : m.step = .running m₁) : Reaches m m₁ := ⟨1, .single h⟩

theorem Reaches.head (h : m.step = .running m₁) (h' : Reaches m₁ m₂) : Reaches m m₂ :=
  (Reaches.single h).trans h'

theorem Reaches.preserves {P : Machine → Prop}
    (hstep : ∀ m m', P m → m.step = .running m' → P m') (h : Reaches m m₁) (hm : P m) : P m₁ := by
  obtain ⟨n, h⟩ := h
  induction h with
  | refl => exact hm
  | cons hs _ ih => exact ih (hstep _ _ hm hs)

theorem Steps.runFor (h : Steps n m m₁) (k : Nat) : m.runFor (n + k) = m₁.runFor k := by
  induction h with
  | refl => simp
  | cons hs _ ih =>
    rw [Nat.add_right_comm]
    simp only [Machine.runFor, hs]
    exact ih

theorem runFor_eq_some_iff {exit : Exit} :
    m.runFor k = some (exit, m₂) ↔
      ∃ n m₁, n < k ∧ Steps n m m₁ ∧ m₁.step = .stopped exit m₂ := by
  constructor
  · intro h
    induction k generalizing m with
    | zero => simp [runFor] at h
    | succ k ih =>
      simp only [runFor] at h
      split at h
      next m₁ hs =>
        obtain ⟨n, m₃, hn, hsteps, hstop⟩ := ih h
        exact ⟨n + 1, m₃, by omega, .cons hs hsteps, hstop⟩
      next exit' m' hs =>
        simp only [Option.some.injEq, Prod.mk.injEq] at h
        obtain ⟨rfl, rfl⟩ := h
        exact ⟨0, m, by omega, .refl m, hs⟩
  · rintro ⟨n, m₁, hn, hsteps, hstop⟩
    obtain ⟨j, rfl⟩ : ∃ j, k = n + (j + 1) := ⟨k - n - 1, by omega⟩
    rw [hsteps.runFor]
    simp [runFor, hstop]

theorem runFor_mono {x : Exit × Machine} (h : m.runFor n = some x) (hk : n ≤ k) :
    m.runFor k = some x := by
  obtain ⟨j, m₁, hj, hsteps, hstop⟩ := runFor_eq_some_iff.mp h
  exact runFor_eq_some_iff.mpr ⟨j, m₁, Nat.lt_of_lt_of_le hj hk, hsteps, hstop⟩

/-- A run ends in one way, whatever the bound on its steps. -/
theorem runFor_unique {x y : Exit × Machine} (h : m.runFor n = some x) (h' : m.runFor k = some y) :
    x = y := by
  rcases Nat.le_total n k with hle | hle
  · exact Option.some.inj ((runFor_mono h hle).symm.trans h')
  · exact Option.some.inj (h.symm.trans (runFor_mono h' hle))

theorem runFor_eq_none_iff : m.runFor k = none ↔ ∃ m₁, Steps k m m₁ := by
  constructor
  · intro h
    induction k generalizing m with
    | zero => exact ⟨m, .refl m⟩
    | succ k ih =>
      simp only [runFor] at h
      split at h
      next m₁ hs =>
        obtain ⟨m₂, hsteps⟩ := ih h
        exact ⟨m₂, .cons hs hsteps⟩
      next => simp at h
  · rintro ⟨m₁, h⟩
    have h' := h.runFor 0
    simpa [runFor] using h'

end RecordLang.Machine

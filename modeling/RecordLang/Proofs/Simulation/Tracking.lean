import RecordLang.Proofs.Balance.Coverage
import RecordLang.Proofs.Evaluation.Run

/-! # Runs that follow an evaluation

A machine follows an evaluation if it comes to where the result of the evaluation says, fails as the
evaluation fails, and takes many steps where the evaluation does not end within its bound. What is
said of an evaluation that gets stuck is nothing.
-/

namespace RecordLang

def Machine.world (m : Machine) : World := ⟨m.heap, m.input, m.output⟩

structure Ground where
  routines : Table Routine
  arities : Table Nat
  depth : Routine → Nat → Option Int64
  labelled : Labelled routines arities depth

namespace Ground

/-- A machine on checked routines that has no limits. -/
def machine (G : Ground) (verify : Bool) (steps : Nat) (fs : List Frame) (w : World) : Machine where
  config := { verify }
  routines := G.routines
  frames := fs
  heap := w.heap
  input := w.input
  output := w.output
  steps := steps

/-- The outcome of an instruction is the result of an evaluation; `fs` tells the frames. -/
def Yields {α : Type} (G : Ground) (verify : Bool) (steps : Nat) (o : Outcome) (r : Run α)
    (fs : α → List Frame) : Prop :=
  match r with
  | .done a w => o = .next (G.machine verify steps (fs a) w)
  | .failed c w => ∃ m : Machine, o = .failed c m ∧ m.world = w
  | .stuck => True
  | .unfinished => False

variable {G : Ground} {verify : Bool} {steps : Nat} {f : Frame} {fs cs : List Frame} {w : World}
  {i : Instruction}

@[simp]
theorem machine_heap : (G.machine verify steps fs w).heap = w.heap := rfl

@[simp]
theorem machine_input : (G.machine verify steps fs w).input = w.input := rfl

@[simp]
theorem machine_output : (G.machine verify steps fs w).output = w.output := rfl

theorem step_machine (hi : f.instr? = some i) :
    (G.machine verify steps (f :: cs) w).step =
      ((G.machine verify (steps + 1) (f.advance :: cs) w).exec f.advance i).progress f.pc i := by
  have hf : (G.machine verify steps (f :: cs) w).frames = f :: cs := rfl
  rw [Machine.step_eq hf hi]
  rfl

end Ground

namespace Machine

/-- The machine has these frames and this world, and control is on checked ground. -/
def At (G : Ground) (fs : List Frame) (w : World) (m : Machine) : Prop :=
  (∃ verify steps, m = G.machine verify steps fs w) ∧ Covered G.routines G.depth m

def Fails (m : Machine) (c : Cause) (w : World) : Prop :=
  ∃ e m', m.step = .stopped (.faulted e) m' ∧ e.cause = c ∧ m'.world = w

/-- A run from `m` follows the evaluation that ends as `r` says; a result leads to a state as `Q`
asks for, and an evaluation that does not end takes more than `n` steps. -/
def Follows {α : Type} (n : Nat) (m : Machine) (r : Run α) (Q : α → World → Machine → Prop) :
    Prop :=
  match r with
  | .done a w => ∃ m', Reaches m m' ∧ Q a w m'
  | .failed c w => ∃ m', Reaches m m' ∧ m'.Fails c w
  | .stuck => True
  | .unfinished => ∃ m', Steps n m m'

variable {α β σ : Type} {n k : Nat} {m m' : Machine} {Q : α → World → Machine → Prop}
  {Q' : β → World → Machine → Prop} {w : World}

theorem Steps.take {m₂ : Machine} (h : Steps (n + k) m m₂) : ∃ m₁, Steps n m m₁ := by
  induction n generalizing m with
  | zero => exact ⟨m, .refl m⟩
  | succ n ih =>
    rw [Nat.add_right_comm] at h
    cases h with
    | cons hs h =>
      obtain ⟨m₁, h₁⟩ := ih h
      exact ⟨m₁, .cons hs h₁⟩

theorem Follows.mono_steps {r : Run α} (h : Follows n m r Q) (hk : k ≤ n) : Follows k m r Q := by
  cases r with
  | unfinished =>
    obtain ⟨m', h⟩ := h
    obtain ⟨j, rfl⟩ := Nat.exists_eq_add_of_le hk
    exact h.take
  | _ => exact h

theorem Follows.before {r : Run α} {Q₁ : α → World → Machine → Prop} (h : Follows n m r Q)
    (hQ : ∀ a w m, Q a w m → ∃ m', Reaches m m' ∧ Q₁ a w m') : Follows n m r Q₁ := by
  cases r with
  | done a w =>
    obtain ⟨m₁, hr, hq⟩ := h
    obtain ⟨m₂, hr', hq'⟩ := hQ a w m₁ hq
    exact ⟨m₂, hr.trans hr', hq'⟩
  | _ => exact h

theorem Follows.result {r : Run α} (h : Follows n m r Q) :
    Follows n m r fun a w m => r = .done a w ∧ Q a w m := by
  cases r with
  | done a w =>
    obtain ⟨m', hr, hq⟩ := h
    exact ⟨m', hr, rfl, hq⟩
  | _ => exact h

theorem Follows.here {a : α} (h : Q a w m) : Follows n m (.done a w) Q := ⟨m, .refl m, h⟩

theorem Follows.step {r : Run α} (hs : m.step = .running m') (h : Follows n m' r Q) :
    Follows (n + 1) m r Q := by
  cases r with
  | done a w =>
    obtain ⟨m₁, hr, hq⟩ := h
    exact ⟨m₁, .head hs hr, hq⟩
  | failed c w =>
    obtain ⟨m₁, hr, hq⟩ := h
    exact ⟨m₁, .head hs hr, hq⟩
  | stuck => trivial
  | unfinished =>
    obtain ⟨m₁, h⟩ := h
    exact ⟨m₁, .cons hs h⟩

theorem Follows.after {r : Run α} (hr : Reaches m m') (h : Follows n m' r Q) :
    Follows n m r Q := by
  obtain ⟨k, hk⟩ := hr
  induction hk with
  | refl => exact h
  | cons hs _ ih => exact (Follows.step hs (ih h)).mono_steps (Nat.le_succ n)

theorem Follows.bind {x : Eval α} {f : α → Eval β} (h : Follows n m (x w) Q)
    (hf : ∀ a w m, Q a w m → Follows n m (f a w) Q') : Follows n m ((x >>= f) w) Q' := by
  show Follows n m (Eval.bind x f w) Q'
  unfold Eval.bind
  cases hx : x w with
  | done a w' =>
    rw [hx] at h
    obtain ⟨m', hr, hq⟩ := h
    exact (hf a w' m' hq).after hr
  | failed c w' =>
    rw [hx] at h
    exact h
  | stuck => trivial
  | unfinished =>
    rw [hx] at h
    exact h

theorem Follows.known {o : Option α} {f : α → Eval β}
    (h : ∀ a, o = some a → Follows n m (f a w) Q') : Follows n m ((Eval.known o >>= f) w) Q' := by
  cases o with
  | none => trivial
  | some a => exact h a rfl

/-- Where a turn of a loop leads to: with one more step to the next turn, or out of the loop. -/
def Turned (Inv : σ → World → Machine → Prop) (Q : α → World → Machine → Prop) :
    Eval.Turn σ α → World → Machine → Prop
  | .again s, w, m => ∃ m', m.step = .running m' ∧ Inv s w m'
  | .ended a, w, m => Q a w m

/-- Turns of a loop. A loop that goes on for more turns than it may take goes on for that many
steps. -/
theorem Follows.repeatFor {turn : σ → Eval (Eval.Turn σ α)} {Inv : σ → World → Machine → Prop}
    (hturn : ∀ s w m, Inv s w m → Follows n m (turn s w) (Turned Inv Q)) {bound : Nat}
    (hk : k ≤ bound) (hn : k ≤ n) {s : σ} (hs : Inv s w m) :
    Follows k m (Eval.repeatFor turn bound s w) Q := by
  induction bound generalizing k s w m with
  | zero =>
    obtain rfl := Nat.le_zero.mp hk
    exact ⟨m, .refl m⟩
  | succ bound ih =>
    apply ((hturn s w m hs).mono_steps hn).bind
    intro t w m ht
    cases t with
    | ended a => exact .here ht
    | again s =>
      obtain ⟨m', hstep, hs'⟩ := ht
      have hrest : Follows (k - 1) m' (Eval.repeatFor turn bound s w) Q :=
        ih (by omega) (by omega) hs'
      exact (Follows.step hstep hrest).mono_steps (by omega)

end Machine

end RecordLang

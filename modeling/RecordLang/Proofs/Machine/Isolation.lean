import RecordLang.Proofs.Machine.Transition

/-! # Isolated calls

A step works on the innermost frame alone. So the frames below a call stay as they are until the
call returns, and all that its caller sees of it then is one value.
-/

namespace RecordLang

/-- The instruction of the frame can lead to the index `pc`: it stands before it or jumps to it. -/
def Frame.LeadsTo (f : Frame) (pc : Nat) : Prop :=
  ∃ i, f.instr? = some i ∧ (pc = f.pc + 1 ∨ i.target? = some pc)

/-- The frame while it waits for a routine that it has called: the arguments are gone. -/
def Frame.waiting (f : Frame) (arity : Nat) : Frame :=
  { f with stack := f.stack.drop arity, pc := f.pc + 1 }

namespace Machine

/-- The machine takes exactly `n` steps from the first state to the second, each of them from a
state with the property `P`. -/
inductive Via (P : Machine → Prop) : Nat → Machine → Machine → Prop where
  | refl (m : Machine) : Via P 0 m m
  | cons {n : Nat} {m m₁ m₂ : Machine} (hp : P m) (h : m.step = .running m₁)
      (hs : Via P n m₁ m₂) : Via P (n + 1) m m₂

variable {P Q : Machine → Prop} {m m' m₁ m₂ : Machine} {n : Nat}

namespace Via

theorem single (hp : P m) (h : m.step = .running m₁) : Via P 1 m m₁ := .cons hp h (.refl _)

theorem steps (h : Via P n m m') : Steps n m m' := by
  induction h with
  | refl m => exact .refl m
  | cons _ hs _ ih => exact .cons hs ih

theorem preserves {I : Machine → Prop}
    (hstep : ∀ m m', P m → I m → m.step = .running m' → I m') (h : Via P n m m') (hm : I m) :
    I m' := by
  induction h with
  | refl => exact hm
  | cons hp hs _ ih => exact ih (hstep _ _ hp hm hs)

theorem exists_last (h : Via P (n + 1) m m') :
    ∃ m₁, Via P n m m₁ ∧ P m₁ ∧ m₁.step = .running m' := by
  induction n generalizing m with
  | zero =>
    obtain ⟨⟩ | ⟨hp, hs, ⟨⟩⟩ := h
    exact ⟨m, .refl m, hp, hs⟩
  | succ n ih =>
    obtain ⟨⟩ | ⟨hp, hs, h⟩ := h
    obtain ⟨m₁, h₁, hp₁, hs₁⟩ := ih h
    exact ⟨m₁, .cons hp hs h₁, hp₁, hs₁⟩

end Via

/-- A run either has the property all along, or there is a first state without it. -/
theorem Steps.via_or (P : Machine → Prop) (h : Steps n m m') :
    Via P n m m' ∨ ∃ k m₁, Via P k m m₁ ∧ ¬ P m₁ ∧ Reaches m₁ m' := by
  induction h with
  | refl m => exact .inl (.refl m)
  | @cons n m m₁ m₂ hs hrest ih =>
    by_cases hp : P m
    · rcases ih with h | ⟨k, m₃, h, hnot, hreach⟩
      · exact .inl (.cons hp hs h)
      · exact .inr ⟨k + 1, m₃, .cons hp hs h, hnot, hreach⟩
    · exact .inr ⟨0, m, .refl m, hp, n + 1, .cons hs hrest⟩

/-! ## Steps above a frame -/

variable {fs base : List Frame} {g : Frame}

/-- A step leaves the frames alone that have others above them, except that the last of those may
return a value. -/
theorem step_above (hne : fs ≠ []) (hf : m.frames = fs ++ g :: base) (h : m.step = .running m') :
    ∃ fs' g', m'.frames = fs' ++ g' :: base ∧
      (fs' ≠ [] ∧ g' = g ∨ fs' = [] ∧ ∃ v, g' = g.push v) := by
  obtain ⟨top, fs, rfl⟩ := List.exists_cons_of_ne_nil hne
  obtain ⟨f, callers, i, hf', _, _, hmove⟩ := step_running h
  obtain ⟨rfl, rfl⟩ := List.cons.inj (hf'.symm.trans hf)
  generalize m'.frames = gs at hmove
  cases hmove with
  | @stay f' _ _ _ _ _ _ _ _ _ => exact ⟨f' :: fs, g, rfl, .inl ⟨List.cons_ne_nil _ _, rfl⟩⟩
  | enter _ _ _ => exact ⟨_ :: _ :: fs, g, rfl, .inl ⟨List.cons_ne_nil _ _, rfl⟩⟩
  | @leave v s caller rest _ _ hc =>
    cases fs with
    | nil =>
      obtain ⟨rfl, rfl⟩ := List.cons.inj hc
      exact ⟨[], g.push v, rfl, .inr ⟨rfl, v, rfl⟩⟩
    | cons f₁ fs =>
      obtain ⟨rfl, rfl⟩ := List.cons.inj hc
      exact ⟨f₁.push v :: fs, g, rfl, .inl ⟨List.cons_ne_nil _ _, rfl⟩⟩

/-- A step leaves the frames `base` alone. The frame `g` above them stays in its routine, and where
it is if there are others above it; or else the step returns from `g`. -/
theorem step_over (hf : m.frames = fs ++ g :: base) (h : m.step = .running m') :
    (∃ fs' g', m'.frames = fs' ++ g' :: base ∧ g'.routine = g.routine ∧
      (fs = [] ∧ g.LeadsTo g'.pc ∨ fs ≠ [] ∧ g'.pc = g.pc)) ∨
    (fs = [] ∧ ∃ v s caller rest, g.instr? = some .ret ∧ g.stack = v :: s ∧
      base = caller :: rest ∧ m'.frames = caller.push v :: rest) := by
  by_cases hne : fs = []
  · subst hne
    obtain ⟨f, callers, i, hf', hi, _, hmove⟩ := step_running h
    obtain ⟨rfl, rfl⟩ := List.cons.inj (hf'.symm.trans hf)
    generalize m'.frames = gs at hmove
    cases hmove with
    | @stay f' _ _ _ hr hpc _ _ _ _ =>
      refine .inl ⟨[], f', rfl, hr, .inl ⟨rfl, i, hi, ?_⟩⟩
      exact hpc.imp And.left id
    | enter _ _ _ => exact .inl ⟨[_], _, rfl, rfl, .inl ⟨rfl, i, hi, .inl rfl⟩⟩
    | leave hret hs hc =>
      subst hret
      exact .inr ⟨rfl, _, _, _, _, hi, hs, hc, rfl⟩
  · left
    obtain ⟨fs', g', hf', ⟨_, rfl⟩ | ⟨_, v, rfl⟩⟩ := step_above hne hf h
    · exact ⟨fs', g', hf', rfl, .inr ⟨hne, rfl⟩⟩
    · exact ⟨fs', _, hf', rfl, .inr ⟨hne, rfl⟩⟩

/-! ## Calls -/

variable {r : Routine} {f : Frame} {callers : List Frame} {name : String}

/-- The machine is in a call of the routine `r`, whose frame is right above the frames `base`. -/
def Inside (r : Routine) (base : List Frame) (m : Machine) : Prop :=
  ∃ fs g, m.frames = fs ++ g :: base ∧ g.routine = r

/-- The next step returns the value `v` from the call of the routine `r` above the frames `base`. -/
def Returning (r : Routine) (base : List Frame) (v : Value) (m : Machine) : Prop :=
  ∃ g s, m.frames = g :: base ∧ g.routine = r ∧ g.instr? = some .ret ∧ g.stack = v :: s

theorem Inside.depth_lt (h : Inside r base m) : base.length < m.depth := by
  obtain ⟨fs, g, hf, _⟩ := h
  rw [depth, hf, List.length_append, List.length_cons]
  omega

theorem Inside.step (hm : Inside r (f :: callers) m) (h : m.step = .running m') :
    Inside r (f :: callers) m' ∨
      ∃ v, Returning r (f :: callers) v m ∧ m'.frames = f.push v :: callers := by
  obtain ⟨fs, g, hf, hr⟩ := hm
  rcases step_over hf h with ⟨fs', g', hf', hr', _⟩ | ⟨rfl, v, s, caller, rest, hi, hs, hc, hf'⟩
  · exact .inl ⟨fs', g', hf', hr'.trans hr⟩
  · obtain ⟨rfl, rfl⟩ := List.cons.inj hc
    exact .inr ⟨v, ⟨g, s, hf, hr, hi, hs⟩, hf'⟩

/-- As long as there are more frames than those below the call, the machine is inside of it. -/
theorem Inside.via (hm : Inside r (f :: callers) m)
    (h : Via (fun x => callers.length + 1 < x.depth) n m m')
    (hd : callers.length + 1 < m'.depth) : Inside r (f :: callers) m' := by
  induction h with
  | refl => exact hm
  | @cons n m m₁ m₂ _ hs hrest ih =>
    rcases hm.step hs with h₁ | ⟨v, _, hf⟩
    · exact ih h₁ hd
    · -- the call has returned, so there is no step left
      cases hrest with
      | refl =>
        rw [depth, hf] at hd
        exact absurd hd (Nat.lt_irrefl _)
      | cons hp _ _ =>
        rw [depth, hf] at hp
        exact absurd hp (Nat.lt_irrefl _)

theorem step_call (hf : m.frames = f :: callers) (hi : f.instr? = some (.call name))
    (h : m.step = .running m₁) :
    ∃ r, m.routines.get? name = some r ∧ r.arity ≤ f.stack.length ∧
      m₁.frames =
        ⟨r, #[], (f.stack.take r.arity).reverse, 0⟩ :: f.waiting r.arity :: callers := by
  obtain ⟨f', callers', i, hf', hi', _, hmove⟩ := step_running h
  obtain ⟨rfl, rfl⟩ := List.cons.inj (hf.symm.trans hf')
  obtain rfl := Option.some.inj (hi.symm.trans hi')
  generalize m₁.frames = gs at hmove
  cases hmove with
  | stay _ _ _ he _ _ _ => cases he
  | enter hcall hr ha =>
    cases hcall
    exact ⟨_, hr, ha, rfl⟩
  | leave hret _ _ => cases hret

/-- When a frame has called a routine, the routine begins with no locals and with the arguments as
its operands, the first of them on top. Up to the first moment at which control is back in the
frame, if there is one, the frame and those below it stay as they are; at that moment the frame has
the value that the routine has returned in place of the arguments. -/
theorem calls_are_isolated (hf : m.frames = f :: callers) (hi : f.instr? = some (.call name))
    (hcall : m.step = .running m₁) :
    ∃ r, m.routines.get? name = some r ∧ r.arity ≤ f.stack.length ∧
      m₁.frames =
        ⟨r, #[], (f.stack.take r.arity).reverse, 0⟩ :: f.waiting r.arity :: callers ∧
      (∀ n m₂, Via (fun x => m.depth < x.depth) n m₁ m₂ →
        (m.depth < m₂.depth → Inside r (f.waiting r.arity :: callers) m₂) ∧
        (m₂.depth ≤ m.depth → ∃ v k m', n = k + 1 ∧ Via (fun x => m.depth < x.depth) k m₁ m' ∧
          Returning r (f.waiting r.arity :: callers) v m' ∧ m'.step = .running m₂ ∧
          m₂.frames =
            { f with stack := v :: f.stack.drop r.arity, pc := f.pc + 1 } :: callers)) ∧
      ∀ m₃, Reaches m₁ m₃ → m₃.depth ≤ m.depth →
        ∃ n m₂, Via (fun x => m.depth < x.depth) n m₁ m₂ ∧ m₂.depth ≤ m.depth ∧
          Reaches m₂ m₃ := by
  obtain ⟨r, hr, ha, hf₁⟩ := step_call hf hi hcall
  have hdepth : m.depth = callers.length + 1 := by
    rw [depth, hf]
    rfl
  have hinside : Inside r (f.waiting r.arity :: callers) m₁ := ⟨[], _, hf₁, rfl⟩
  refine ⟨r, hr, ha, hf₁, ?_, ?_⟩
  · intro n m₂ h
    rw [hdepth] at h ⊢
    refine ⟨hinside.via h, ?_⟩
    intro hd
    cases n with
    | zero =>
      cases h
      exact absurd hinside.depth_lt (Nat.not_lt.mpr hd)
    | succ k =>
      obtain ⟨m', h', hp, hs⟩ := h.exists_last
      rcases (hinside.via h' hp).step hs with hin | ⟨v, hret, hf₂⟩
      · exact absurd hin.depth_lt (Nat.not_lt.mpr hd)
      · exact ⟨v, k, m', rfl, h', hret, hs, hf₂⟩
  · rintro m₃ ⟨n, hsteps⟩ hd
    rcases hsteps.via_or (fun x => m.depth < x.depth) with h | ⟨k, m₂, h, hnot, hreach⟩
    · exact ⟨n, m₃, h, hd, .refl m₃⟩
    · exact ⟨k, m₂, h, Nat.le_of_not_lt hnot, hreach⟩

/-- A frame that calls a routine with two of its three operands. The routine calls another one
before it returns its first argument. -/
def nestedCall : Machine where
  routines := [("f", ⟨"f", 2, #[.call "g", .pop, .ret]⟩), ("g", ⟨"g", 0, #[.push .nil, .ret]⟩)]
  frames := [⟨⟨"main", 0, #[.nop, .call "f", .ret]⟩, #[.int 5], [.int 2, .int 1, .int 9], 1⟩]

theorem nested_call_is_isolated :
    ∃ f m₁ m₂, nestedCall.frames = [f] ∧ f.instr? = some (.call "f") ∧
      nestedCall.step = .running m₁ ∧
      (∃ r caller, m₁.frames = [⟨r, #[], [.int 1, .int 2], 0⟩, caller]) ∧
      Via (fun x => nestedCall.depth < x.depth) 5 m₁ m₂ ∧ m₂.depth ≤ nestedCall.depth ∧
      ∃ v, m₂.frames = [{ f with stack := [v, .int 9], pc := 2 }] := by
  have hdeep : ∀ {m : Machine} {a b : Frame} {fs : List Frame}, m.frames = a :: b :: fs →
      nestedCall.depth < m.depth := by
    intro m a b fs hm
    show 1 < m.frames.length
    rw [hm]
    exact Nat.succ_lt_succ (Nat.succ_pos _)
  obtain ⟨r, hr, _, hf₁, hback, _⟩ :=
    calls_are_isolated (m := nestedCall) rfl rfl rfl
  have hvia : Via (fun x => nestedCall.depth < x.depth) 5 _ _ :=
    .cons (hdeep hf₁) rfl (.cons (hdeep rfl) rfl (.cons (hdeep rfl) rfl
      (.cons (hdeep rfl) rfl (.cons (hdeep rfl) rfl (.refl _)))))
  obtain rfl := Option.some.inj hr
  obtain ⟨v, _, _, _, _, _, _, hf₂⟩ := (hback 5 _ hvia).2 (Nat.le_refl 1)
  exact ⟨_, _, _, rfl, rfl, rfl, ⟨_, _, hf₁⟩, hvia, Nat.le_refl 1, v, hf₂⟩

end Machine

end RecordLang

import RecordLang.Proofs.Machine.Isolation

/-! # Ways through a frame

Code that jumps nowhere but inside itself is left at its end only, or by a `return`. So as long as
control is in it, nothing happens in the rest of the routine, whatever is called meanwhile. If the
height of the stack is known along the code, its operands are the only change to the stack at its
end.
-/

namespace RecordLang

/-- No instruction from the index `a` up to `b` jumps to a place outside. -/
def Routine.Closed (r : Routine) (a b : Nat) : Prop :=
  ∀ pc i t, a ≤ pc → pc < b → r.code[pc]? = some i → i.target? = some t → a ≤ t ∧ t ≤ b

/-- Heights of the stack from the index `a` up to `b`, above some level that is not touched. -/
def Routine.Levels (r : Routine) (arity : String → Option Nat) (a b : Nat) (height : Nat → Nat) :
    Prop :=
  ∀ pc i, a ≤ pc → pc < b → r.code[pc]? = some i → ∃ pops pushes,
    i.effect? arity = some (pops, pushes) ∧ pops ≤ height pc ∧
      ∀ q, q = pc + 1 ∧ i.fallsThrough = true ∨ i.target? = some q →
        height q + pops = height pc + pushes

/-- Code that stays between the indices `a` and `b`, with `k` operands more at its end. -/
structure Routine.Raises (r : Routine) (arity : String → Option Nat) (a b k : Nat) : Prop where
  le : a ≤ b
  closed : r.Closed a b
  levels : ∃ height, height a = 0 ∧ height b = k ∧ r.Levels arity a b height

def Routine.Storeless (r : Routine) (a b : Nat) : Prop :=
  ∀ pc n, a ≤ pc → pc < b → r.code[pc]? ≠ some (.store n)

namespace Machine

def arity? (m : Machine) (name : String) : Option Nat := (m.routines.get? name).map Routine.arity

def Stands (D q : Nat) (m : Machine) : Prop :=
  ∃ f callers, m.frames = f :: callers ∧ m.depth = D ∧ f.pc = q

/-- The frame number `D` has not returned, and control in it has not come to the index `q`. -/
def Toward (D q : Nat) (m : Machine) : Prop := D ≤ m.depth ∧ ¬ Stands D q m

/-- From the innermost frame, control comes to the index `q` of that frame with the value `v` on
top of its stack. -/
def Delivers (q : Nat) (v : Value) (m : Machine) : Prop :=
  ∃ n m' f callers, Via (Toward m.depth q) n m m' ∧ m'.frames = f :: callers ∧
    m'.depth = m.depth ∧ f.pc = q ∧ f.stack.head? = some v

/-- From the innermost frame, control comes to the index `q` of that frame, whose slot `slot` is as
it was. -/
def Completes (q slot : Nat) (m : Machine) : Prop :=
  ∃ f callers n m' f' callers', m.frames = f :: callers ∧ Via (Toward m.depth q) n m m' ∧
    m'.frames = f' :: callers' ∧ m'.depth = m.depth ∧ f'.pc = q ∧
    f'.locals[slot]? = f.locals[slot]?

/-- The machine goes from the first state to the second through states with the property `P`. The
list tells what `entry` has to say of the states on the way, in order. -/
inductive Passes {α : Type} (P : Machine → Prop) (entry : Machine → Option α) :
    Machine → List α → Machine → Prop where
  | refl (m : Machine) : Passes P entry m [] m
  | cons {m m₁ m₂ : Machine} {as : List α} (hp : P m) (h : m.step = .running m₁)
      (hs : Passes P entry m₁ as m₂) : Passes P entry m ((entry m).toList ++ as) m₂

variable {α : Type} {P Q : Machine → Prop} {entry : Machine → Option α} {m m' m₁ m₂ m₃ : Machine}
  {as bs : List α} {n D a b q : Nat}

namespace Passes

theorem trans (h : Passes P entry m₁ as m₂) (h' : Passes P entry m₂ bs m₃) :
    Passes P entry m₁ (as ++ bs) m₃ := by
  induction h with
  | refl => exact h'
  | cons hp hs _ ih =>
    rw [List.append_assoc]
    exact .cons hp hs (ih h')

theorem quiet (hp : P m) (he : entry m = none) (h : m.step = .running m₁) :
    Passes P entry m [] m₁ := by
  have hpass : Passes P entry m ((entry m).toList ++ []) m₁ := .cons hp h (.refl m₁)
  rw [he] at hpass
  exact hpass

theorem heard {x : α} (hp : P m) (he : entry m = some x) (h : m.step = .running m₁) :
    Passes P entry m [x] m₁ := by
  have hpass : Passes P entry m ((entry m).toList ++ []) m₁ := .cons hp h (.refl m₁)
  rw [he] at hpass
  exact hpass

theorem of_via (h : Via Q n m m') (hQ : ∀ x, Q x → P x ∧ entry x = none) :
    Passes P entry m [] m' := by
  induction h with
  | refl m => exact .refl m
  | cons hq hs _ ih =>
    obtain ⟨hp, he⟩ := hQ _ hq
    exact (quiet hp he hs).trans ih

theorem via (h : Passes P entry m as m') : ∃ n, Via P n m m' := by
  induction h with
  | refl m => exact ⟨0, .refl m⟩
  | cons hp hs _ ih =>
    obtain ⟨n, h⟩ := ih
    exact ⟨n + 1, .cons hp hs h⟩

/-- Before it comes to a state without `P`, a run only says what it says up to there. -/
theorem exists_append (h : Passes P entry m as m₁) (hm₁ : ¬ P m₁) (h' : Passes P entry m bs m₂) :
    ∃ cs, as = bs ++ cs := by
  induction h' generalizing as with
  | refl => exact ⟨as, rfl⟩
  | cons hp hs _ ih =>
    cases h with
    | refl => exact absurd hp hm₁
    | cons _ hs' h =>
      obtain rfl := Progress.running.inj (hs.symm.trans hs')
      obtain ⟨cs, rfl⟩ := ih h
      exact ⟨cs, (List.append_assoc ..).symm⟩

end Passes

/-! ## Steps of the innermost frame -/

variable {r : Routine} {f f' : Frame} {callers : List Frame} {i : Instruction}

theorem stands_iff (hf : m.frames = f :: callers) : Stands D q m ↔ m.depth = D ∧ f.pc = q := by
  constructor
  · rintro ⟨f', callers', hf', hd, hq⟩
    obtain ⟨rfl, rfl⟩ := List.cons.inj (hf.symm.trans hf')
    exact ⟨hd, hq⟩
  · rintro ⟨hd, hq⟩
    exact ⟨f, callers, hf, hd, hq⟩

theorem depth_of_frames (hf : m.frames = f :: callers) : m.depth = callers.length + 1 := by
  rw [depth, hf]
  rfl

theorem toward_of_frames (hf : m.frames = f :: callers) (hq : f.pc ≠ q) :
    Toward (callers.length + 1) q m :=
  ⟨Nat.le_of_eq (depth_of_frames hf).symm, fun h => hq ((stands_iff hf).mp h).2⟩

/-- Without a limit on steps, an instruction that changes nothing but the innermost frame is carried
out. -/
theorem step_to (hm : m.config.maxSteps = none) (hf : m.frames = f :: callers)
    (hi : f.instr? = some i) (hx : ∀ x : Machine, x.exec f.advance i = x.goOn f') :
    ∃ m', m.step = .running m' ∧ m'.config.maxSteps = none ∧ m'.frames = f' :: callers := by
  have hmax : (m.counted f callers).config.maxSteps = none := hm
  refine ⟨(m.counted f callers).withFrame f', ?_, hm, rfl⟩
  rw [step_eq hf hi, dispatch, hmax, Option.filter_none, hx]
  rfl

theorem Via.routines_eq (h : Via P n m m') : m'.routines = m.routines :=
  (Reaches.sameSetting ⟨n, h.steps⟩).routines

theorem Via.arity?_eq (h : Via P n m m') : m'.arity? = m.arity? :=
  funext fun name => by rw [arity?, arity?, h.routines_eq]

theorem Via.maxSteps_eq (h : Via P n m m') (hm : m.config.maxSteps = none) :
    m'.config.maxSteps = none := by
  rw [(Reaches.sameSetting ⟨n, h.steps⟩).config]
  exact hm

/-- What steps of the frame number `D` and of its callees keep, as long as that frame is there. -/
theorem Via.keeps {I : Machine → Prop} (h : Via (Toward D q) n m m')
    (hI : ∀ x x', Toward D q x → I x → x.step = .running x' → I x' ∨ x'.depth < D)
    (hm : I m) (hm' : D ≤ m'.depth) : I m' := by
  have hinv : I m' ∨ m'.depth < D := by
    refine h.preserves (I := fun x => I x ∨ x.depth < D) ?_ (.inl hm)
    rintro x x' hx (hin | hout) hs
    · exact hI x x' hx hin hs
    · exact absurd hx.1 (Nat.not_le.mpr hout)
  exact hinv.resolve_right (Nat.not_lt.mpr hm')

theorem Via.inside (h : Via (Toward (callers.length + 1) q) n m m') (hm : Inside r callers m)
    (hm' : callers.length + 1 ≤ m'.depth) : Inside r callers m' := by
  refine h.keeps ?_ hm hm'
  rintro x x' _ ⟨fs, g, hf, hr⟩ hs
  rcases step_over hf hs with ⟨fs', g', hf', hr', _⟩ | ⟨_, v, s, caller, rest, _, _, hc, hf'⟩
  · exact .inl ⟨fs', g', hf', hr'.trans hr⟩
  · right
    rw [depth, hf', hc]
    exact Nat.lt_succ_self _

/-! ## Closed code -/

/-- Control is in a call of the routine `r` right above the frames `callers`, or in what it has
called. The index of the call is between `a` and `b`, and control does not stand at `b`. -/
def Within (r : Routine) (callers : List Frame) (a b : Nat) (m : Machine) : Prop :=
  ∃ fs g, m.frames = fs ++ g :: callers ∧ g.routine = r ∧ a ≤ g.pc ∧ g.pc ≤ b ∧
    (fs = [] → g.pc < b)

theorem Within.le_depth (h : Within r callers a b m) : callers.length + 1 ≤ m.depth := by
  obtain ⟨fs, g, hf, _⟩ := h
  rw [depth, hf, List.length_append, List.length_cons]
  omega

theorem Within.pc_of_stands (h : Within r callers a b m) (hs : Stands (callers.length + 1) q m) :
    a ≤ q ∧ q < b := by
  obtain ⟨fs, g, hf, _, ha, _, hb⟩ := h
  cases fs with
  | nil =>
    obtain ⟨_, rfl⟩ := (stands_iff hf).mp hs
    exact ⟨ha, hb rfl⟩
  | cons f fs =>
    obtain ⟨hd, _⟩ := (stands_iff hf).mp hs
    rw [depth, hf, List.length_append, List.length_cons, List.length_cons] at hd
    omega

theorem Within.toward (h : Within r callers a b m) (hq : q < a ∨ b ≤ q) :
    Toward (callers.length + 1) q m := by
  refine ⟨h.le_depth, ?_⟩
  intro hs
  have := h.pc_of_stands hs
  omega

/-- On its way to the end of closed code, control does not leave it. -/
theorem Via.within (hc : r.Closed a b) (h : Via (Toward (callers.length + 1) b) n m m')
    {fs : List Frame} {g : Frame} (hf : m.frames = fs ++ g :: callers) (hr : g.routine = r)
    (ha : a ≤ g.pc) (hb : g.pc ≤ b) (hm' : callers.length + 1 ≤ m'.depth) :
    Via (Within r callers a b) n m m' := by
  induction h generalizing fs g with
  | refl m => exact .refl m
  | @cons n m m₁ m₂ hp hs hrest ih =>
    have hlt : fs = [] → g.pc < b := by
      rintro rfl
      have hne : g.pc ≠ b := by
        intro heq
        refine hp.2 ((stands_iff hf).mpr ⟨?_, heq⟩)
        rw [depth, hf]
        rfl
      omega
    refine .cons ⟨fs, g, hf, hr, ha, hb, hlt⟩ hs ?_
    rcases step_over hf hs with ⟨fs', g', hf', hr', hpc⟩ | ⟨_, v, s, caller, rest, _, _, hc', hf'⟩
    · have hpc' : a ≤ g'.pc ∧ g'.pc ≤ b := by
        obtain ⟨rfl, i, hi, hnext | htarget⟩ | ⟨_, hkept⟩ := hpc
        · have := hlt rfl
          omega
        · rw [Frame.instr?, hr] at hi
          exact hc _ _ _ ha (hlt rfl) hi htarget
        · omega
      exact ih hf' (hr'.trans hr) hpc'.1 hpc'.2 hm'
    · -- the call has returned, so the frame is gone for good
      have hdepth : m₁.depth < callers.length + 1 := by
        rw [depth, hf', hc']
        exact Nat.lt_succ_self _
      cases hrest with
      | refl => omega
      | cons hp₁ _ _ =>
        have := hp₁.1
        omega

end Machine

/-! ## Levelled code -/

/-- A frame between the indices `a` and `b` of the routine `r`. The height counts its operands on
top of `st` and the values that it still expects from a call. -/
structure Frame.Rests (r : Routine) (a b : Nat) (height : Nat → Nat) (ls : Array Value)
    (st : List Value) (expected : Nat) (g : Frame) : Prop where
  routine : g.routine = r
  pc : a ≤ g.pc ∧ g.pc ≤ b
  stack : ∃ vs, g.stack = vs ++ st ∧ height g.pc = vs.length + expected
  locals : r.Storeless a b → g.locals = ls

section Levels

variable {r : Routine} {arity : String → Option Nat} {a b k : Nat} {height : Nat → Nat}
  {ls : Array Value} {st : List Value} {g g' : Frame} {i : Instruction}

theorem Frame.Rests.push (h : g.Rests r a b height ls st 1) (v : Value) :
    (g.push v).Rests r a b height ls st 0 := by
  obtain ⟨vs, hs, hh⟩ := h.stack
  refine ⟨h.routine, h.pc, ⟨v :: vs, ?_, hh⟩, h.locals⟩
  rw [Frame.push, hs, List.cons_append]

theorem Frame.Rests.next {pops expected : Nat} (vs : List Value) (hl : r.Levels arity a b height)
    (hc : r.Closed a b) (hg : g.Rests r a b height ls st 0) (hlt : g.pc < b)
    (hi : g.instr? = some i) (he : i.effect? arity = some (pops, vs.length + expected))
    (hr : g'.routine = g.routine)
    (hpc : g'.pc = g.pc + 1 ∧ i.fallsThrough = true ∨ i.target? = some g'.pc)
    (hs : g'.stack = vs ++ g.stack.drop pops)
    (hlocals : (∀ n, i ≠ .store n) → g'.locals = g.locals) :
    g'.Rests r a b height ls st expected := by
  obtain ⟨us, hus, hh⟩ := hg.stack
  rw [Frame.instr?, hg.routine] at hi
  obtain ⟨pops', pushes', he', henough, hnext⟩ := hl g.pc i hg.pc.1 hlt hi
  obtain ⟨rfl, rfl⟩ := Prod.mk.inj (Option.some.inj (he'.symm.trans he))
  have hafter := hnext g'.pc hpc
  refine ⟨hr.trans hg.routine, ?_, ⟨vs ++ us.drop pops', ?_, ?_⟩, ?_⟩
  · rcases hpc with ⟨hpc, _⟩ | ht
    · have := hg.pc.1
      omega
    · exact hc g.pc i g'.pc hg.pc.1 hlt hi ht
  · rw [hs, hus, List.drop_append_of_le_length (by omega), List.append_assoc]
  · rw [List.length_append, List.length_drop]
    omega
  · intro hno
    refine (hlocals ?_).trans (hg.locals hno)
    rintro n rfl
    exact hno g.pc n hg.pc.1 hlt hi

end Levels

namespace Machine

variable {height : Nat → Nat} {ls : Array Value} {st : List Value} {k : Nat} {v : Value}

/-- In the call of the routine `r` right above the frames `callers`, the stack is at its height. -/
def Levelled (r : Routine) (callers : List Frame) (a b : Nat) (height : Nat → Nat)
    (ls : Array Value) (st : List Value) (m : Machine) : Prop :=
  ∃ fs g, m.frames = fs ++ g :: callers ∧
    (fs = [] ∧ g.Rests r a b height ls st 0 ∨ fs ≠ [] ∧ g.Rests r a b height ls st 1)

theorem Levelled.step (hl : r.Levels m.arity? a b height) (hc : r.Closed a b)
    (h : Levelled r callers a b height ls st m) (hm : Toward (callers.length + 1) b m)
    (hs : m.step = .running m') :
    Levelled r callers a b height ls st m' ∨ m'.depth < callers.length + 1 := by
  obtain ⟨fs, g, hf, ⟨rfl, hg⟩ | ⟨hne, hg⟩⟩ := h
  · have hlt : g.pc < b := by
      have hpc : g.pc ≠ b := fun hpc => hm.2 ((stands_iff hf).mpr ⟨depth_of_frames hf, hpc⟩)
      have := hg.pc.2
      omega
    obtain ⟨f, callers', i, hf', hi, _, hmove⟩ := step_running hs
    obtain ⟨rfl, rfl⟩ := List.cons.inj (hf.symm.trans hf')
    generalize hgs : m'.frames = gs at hmove
    cases hmove with
    | @stay g' pops vs _ hr hpc he _ hstack hlocals =>
      refine .inl ⟨[], g', hgs, .inl ⟨rfl, ?_⟩⟩
      exact hg.next vs hl hc hlt hi (Instruction.effect?_of_none he) hr hpc hstack hlocals
    | @enter name callee hcall hcallee _ =>
      subst hcall
      have he : Instruction.effect? m.arity? (.call name) = some (callee.arity, 0 + 1) := by
        simp [Instruction.effect?, arity?, hcallee]
      refine .inl ⟨[_], _, hgs, .inr ⟨List.cons_ne_nil _ _, ?_⟩⟩
      exact hg.next [] hl hc hlt hi he rfl (.inl ⟨rfl, rfl⟩) rfl fun _ => rfl
    | @leave v s caller rest _ _ hcallers =>
      right
      rw [depth, hgs, hcallers]
      exact Nat.lt_succ_self _
  · obtain ⟨fs', g', hf', ⟨hne', rfl⟩ | ⟨rfl, v, rfl⟩⟩ := step_above hne hf hs
    · exact .inl ⟨fs', g', hf', .inr ⟨hne', hg⟩⟩
    · exact .inl ⟨[], g.push v, hf', .inl ⟨rfl, hg.push v⟩⟩

theorem Levelled.via (hl : r.Levels m.arity? a b height) (hc : r.Closed a b)
    (hm : Levelled r callers a b height ls st m)
    (h : Via (Toward (callers.length + 1) b) n m m') (hm' : callers.length + 1 ≤ m'.depth) :
    Levelled r callers a b height ls st m' := by
  have hinv : Levelled r callers a b height ls st m' ∧ m'.arity? = m.arity? := by
    refine h.keeps (I := fun x => Levelled r callers a b height ls st x ∧ x.arity? = m.arity?) ?_
      ⟨hm, rfl⟩ hm'
    rintro x x' hx ⟨hin, harity⟩ hs
    have hkept := (Via.single hx hs).arity?_eq.trans harity
    exact (hin.step (harity ▸ hl) hc hx hs).imp_left fun hin' => ⟨hin', hkept⟩
  exact hinv.1

/-- At the end of the code there are its operands on top of what was there before it. -/
theorem Via.exists_operands (h : Via (Toward m.depth b) n m m') (hr : r.Raises m.arity? a b k)
    (hf : m.frames = ⟨r, ls, st, a⟩ :: callers) {callers' : List Frame}
    (hf' : m'.frames = f :: callers') (hdepth : m'.depth = m.depth) (hpc : f.pc = b) :
    ∃ vs ls', vs.length = k ∧ (r.Storeless a b → ls' = ls) ∧ f = ⟨r, ls', vs ++ st, b⟩ ∧
      callers' = callers := by
  obtain ⟨hle, hc, height, hzero, rfl, hl⟩ := hr
  rw [depth_of_frames hf] at h hdepth
  have hm : Levelled r callers a b height ls st m :=
    ⟨[], _, hf, .inl ⟨rfl, rfl, ⟨Nat.le_refl a, hle⟩, ⟨[], rfl, hzero⟩, fun _ => rfl⟩⟩
  obtain ⟨fs, g, hg, hrest⟩ := hm.via hl hc h (Nat.le_of_eq hdepth.symm)
  -- the call is the innermost one again, so there is no frame above its own
  have hnil : fs = [] := by
    rw [depth, hg, List.length_append, List.length_cons] at hdepth
    exact List.length_eq_zero_iff.mp (by omega)
  subst hnil
  obtain ⟨rfl, rfl⟩ := List.cons.inj (hf'.symm.trans hg)
  obtain ⟨_, hrest⟩ | ⟨hne, _⟩ := hrest
  · obtain ⟨rfl, _, ⟨vs, hs, hh⟩, hlocals⟩ := hrest
    refine ⟨vs, f.locals, ?_, hlocals, ?_, rfl⟩
    · rw [← hpc, hh, Nat.add_zero]
    · rw [← hs, ← hpc]
  · exact absurd rfl hne

theorem Delivers.frames (h : Delivers b v m) (hr : r.Raises m.arity? a b 1)
    (hno : r.Storeless a b) (hf : m.frames = ⟨r, ls, st, a⟩ :: callers) :
    ∃ n m', Via (Toward m.depth b) n m m' ∧ m'.frames = ⟨r, ls, v :: st, b⟩ :: callers := by
  obtain ⟨n, m', f, callers', hvia, hf', hdepth, hpc, hv⟩ := h
  obtain ⟨vs, ls', hlen, hlocals, rfl, rfl⟩ := hvia.exists_operands hr hf hf' hdepth hpc
  obtain ⟨w, rfl⟩ := List.length_eq_one_iff.mp hlen
  obtain rfl : w = v := Option.some.inj hv
  obtain rfl := hlocals hno
  exact ⟨n, m', hvia, hf'⟩

theorem Completes.frames {slot : Nat} (h : Completes b slot m) (hr : r.Raises m.arity? a b 0)
    (hf : m.frames = ⟨r, ls, st, a⟩ :: callers) :
    ∃ n m' ls', Via (Toward m.depth b) n m m' ∧ m'.frames = ⟨r, ls', st, b⟩ :: callers ∧
      ls'[slot]? = ls[slot]? := by
  obtain ⟨f, callers₁, n, m', f', callers', hf₁, hvia, hf', hdepth, hpc, hkept⟩ := h
  obtain ⟨rfl, rfl⟩ := List.cons.inj (hf.symm.trans hf₁)
  obtain ⟨vs, ls', hlen, _, rfl, rfl⟩ := hvia.exists_operands hr hf hf' hdepth hpc
  obtain rfl := List.length_eq_zero_iff.mp hlen
  exact ⟨n, m', ls', hvia, hf', hkept⟩

end Machine

end RecordLang

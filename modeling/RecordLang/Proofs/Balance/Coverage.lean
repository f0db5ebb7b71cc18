import RecordLang.Proofs.Balance.Labelling
import RecordLang.Proofs.Except
import RecordLang.Proofs.Machine.Transition
import RecordLang.Proofs.Table

/-! # Runs stay on checked ground

In a machine whose routines are all balanced, control never leaves the instructions that the check
has been through, and so it never meets a slot that is out of range or a routine that is missing.
-/

namespace RecordLang

/-- The table of routines behind the loading of bytecode. -/
def Bytecode.addTo (b : Bytecode) (t : Table Routine) : Table Routine :=
  b.foldl (fun t r => t.put r.name r) t

namespace Bytecode

variable {b : Bytecode} {t : Table Routine} {name : String} {r : Routine}

theorem get?_addTo (h : (b.addTo t).get? name = some r) :
    (r ∈ b ∧ r.name = name) ∨ ((∀ r' ∈ b, r'.name ≠ name) ∧ t.get? name = some r) := by
  induction b generalizing t with
  | nil => exact .inr ⟨fun _ hr' => absurd hr' List.not_mem_nil, h⟩
  | cons r₁ b ih =>
    rcases ih (t := t.put r₁.name r₁) h with ⟨hr, hn⟩ | ⟨hnone, hr⟩
    · exact .inl ⟨.tail _ hr, hn⟩
    · rw [Table.get?_put] at hr
      split at hr
      next hn =>
        obtain rfl := Option.some.inj hr
        exact .inl ⟨.head _, hn.symm⟩
      next hn => exact .inr ⟨List.forall_mem_cons.mpr ⟨Ne.symm hn, hnone⟩, hr⟩

theorem get?_addTo_of_not_mem (h : name ∉ b.map Routine.name) :
    (b.addTo t).get? name = t.get? name := by
  induction b generalizing t with
  | nil => rfl
  | cons r₁ b ih =>
    obtain ⟨hne, h⟩ := List.ne_and_not_mem_of_not_mem_cons h
    exact (ih h).trans (Table.get?_put_of_ne t r₁ hne)

theorem get?_addTo_of_mem (hb : (b.map Routine.name).Nodup) (hr : r ∈ b) :
    (b.addTo t).get? r.name = some r := by
  induction b generalizing t with
  | nil => cases hr
  | cons r₁ b ih =>
    obtain ⟨hnew, hb⟩ := List.nodup_cons.mp hb
    rcases List.mem_cons.mp hr with rfl | hr
    · exact (get?_addTo_of_not_mem hnew).trans (Table.get?_put_self t r.name r)
    · exact ih hb hr

/-- Of routines with one name, the arities and the routines keep the same one. -/
theorem arities_addTo {u : Table Nat} (b : Bytecode) (t : Table Routine)
    (h : ∀ name, u.get? name = (t.get? name).map Routine.arity) (name : String) :
    (b.foldl (fun u r => u.put r.name r.arity) u).get? name =
      ((b.addTo t).get? name).map Routine.arity := by
  induction b generalizing t u with
  | nil => exact h name
  | cons r b ih =>
    apply ih
    intro other
    simp only [Table.get?_put]
    split
    · rfl
    · exact h other

theorem arities_get? (b : Bytecode) (name : String) :
    (arities b).get? name = ((b.addTo []).get? name).map Routine.arity :=
  arities_addTo b [] (fun _ => rfl) name

end Bytecode

structure Labelled (routines : Table Routine) (arities : Table Nat)
    (depth : Routine → Nat → Option Int64) : Prop where
  labelling : ∀ name r, routines.get? name = some r → r.Labelling arities (depth r)
  arity : ∀ name, arities.get? name = (routines.get? name).map Routine.arity

/-- Balanced bytecode has labels for all its routines, which hang on nothing but the bytecode. -/
theorem Bytecode.exists_labelled {b : Bytecode} (hb : b.checkBalance = .ok ()) :
    ∃ depth : Routine → Nat → Option Int64, Labelled (b.addTo []) (arities b) depth ∧
      ∀ name r, (b.addTo []).get? name = some r → ∀ pc d, depth r pc = some d →
        ∃ k < r.code.size, r.Path (arities b) k pc d := by
  have hall : ∀ r ∈ b, r.checkBalance (arities b) = .ok () := forM_eq_ok.mp hb
  have hex : ∀ r : Routine, ∃ depth : Nat → Option Int64, r ∈ b → r.Labelling (arities b) depth ∧
      ∀ pc d, depth pc = some d → ∃ k < r.code.size, r.Path (arities b) k pc d := by
    intro r
    by_cases hr : r ∈ b
    · obtain ⟨depth, hd⟩ := Routine.exists_labelling (hall r hr)
      exact ⟨depth, fun _ => hd⟩
    · exact ⟨fun _ => none, fun h => absurd h hr⟩
  obtain ⟨depth, hdepth⟩ := Classical.axiomOfChoice hex
  have hmem : ∀ name r, (b.addTo []).get? name = some r → r ∈ b := by
    intro name r hr
    rcases get?_addTo hr with ⟨h, _⟩ | ⟨_, h⟩
    · exact h
    · cases h
  exact ⟨depth, ⟨fun name r hr => (hdepth r (hmem name r hr)).1, b.arities_get?⟩,
    fun name r hr => (hdepth r (hmem name r hr)).2⟩

namespace Machine

variable {routines : Table Routine} {arities : Table Nat} {depth : Routine → Nat → Option Int64}
  {m m' : Machine}

theorem load_fresh (config : Config) (input : List UInt8) (output : Output) (b : Bytecode) :
    (fresh config input output).load b =
      if config.verify then
        match b.checkBalance with
        | .ok _ => .ok { config, input, output, routines := b.addTo [] }
        | .error e => .error (.detached (.verify e))
      else .ok { config, input, output, routines := b.addTo [] } := rfl

theorem load_fresh_eq_ok {config : Config} {input : List UInt8} {output : Output} {b : Bytecode}
    (h : (fresh config input output).load b = .ok m) :
    (config.verify = true → b.checkBalance = .ok ()) ∧
      m = { config, input, output, routines := b.addTo [] } := by
  rw [load_fresh] at h
  by_cases hv : config.verify = true
  · rw [if_pos hv] at h
    split at h
    next hb =>
      cases h
      exact ⟨fun _ => hb, rfl⟩
    next => cases h
  · rw [if_neg hv] at h
    cases h
    exact ⟨fun h => absurd h hv, rfl⟩

/-- The frame runs a routine of the table and stands at a labelled instruction. -/
def OnLabel (routines : Table Routine) (depth : Routine → Nat → Option Int64) (f : Frame) : Prop :=
  (∃ name, routines.get? name = some f.routine) ∧ ∃ d, depth f.routine f.pc = some d

structure Covered (routines : Table Routine) (depth : Routine → Nat → Option Int64)
    (m : Machine) : Prop where
  routines_eq : m.routines = routines
  frames : ∀ f ∈ m.frames, OnLabel routines depth f

theorem Covered.step (hl : Labelled routines arities depth) (hm : Covered routines depth m)
    (h : m.step = .running m') : Covered routines depth m' := by
  obtain ⟨f, callers, i, hf, hi, hset, hmove⟩ := step_running h
  have htop := hm.frames f (by simp [hf])
  have hcallers : ∀ g ∈ callers, OnLabel routines depth g := fun g hg =>
    hm.frames g (by simp [hf, hg])
  obtain ⟨⟨name, hname⟩, d, hd⟩ := htop
  obtain ⟨pops, pushes, ha, hfall, htarget⟩ := (hl.labelling name _ hname).admits hd hi
  refine ⟨hset.routines.trans hm.routines_eq, ?_⟩
  generalize hfs : m'.frames = fs at hmove
  cases hmove with
  | @stay f' _ _ _ hr hpc _ _ _ _ =>
    have hf' : OnLabel routines depth f' := by
      refine ⟨⟨name, by rw [hr]; exact hname⟩, d - Int64.ofNat pops + Int64.ofNat pushes, ?_⟩
      rw [hr]
      rcases hpc with ⟨hpc, hft⟩ | ht
      · rw [hpc]
        exact hfall hft
      · exact htarget _ ht
    intro g hg
    rcases List.mem_cons.mp hg with rfl | hg
    · exact hf'
    · exact hcallers g hg
  | @enter callee r hi' hr _ =>
    subst hi'
    rw [hm.routines_eq] at hr
    intro g hg
    rcases List.mem_cons.mp hg with rfl | hg
    · exact ⟨⟨callee, hr⟩, _, (hl.labelling callee r hr).start⟩
    rcases List.mem_cons.mp hg with rfl | hg
    · exact ⟨⟨name, hname⟩, _, hfall rfl⟩
    · exact hcallers g hg
  | @leave v s caller rest _ _ hc =>
    subst hc
    intro g hg
    rcases List.mem_cons.mp hg with rfl | hg
    · exact hcallers caller (.head _)
    · exact hcallers g (.tail _ hg)

theorem Covered.reaches (hl : Labelled routines arities depth) (hm : Covered routines depth m)
    (h : Reaches m m') : Covered routines depth m' :=
  h.preserves (fun _ _ hm h => hm.step hl h) hm

theorem Covered.enter (hl : Labelled routines arities depth) (hm : m.routines = routines)
    {name : String} (h : m.enter name = .ok m') : Covered routines depth m' := by
  unfold Machine.enter at h
  split at h
  next => cases h
  next r hr =>
    cases h
    rw [hm] at hr
    refine ⟨hm, ?_⟩
    intro f hf
    obtain rfl := List.mem_singleton.mp hf
    exact ⟨⟨name, hr⟩, _, (hl.labelling name r hr).start⟩

theorem Covered.slot_lt (hl : Labelled routines arities depth) (hm : Covered routines depth m)
    {f : Frame} {callers : List Frame} {i : Instruction} (hf : m.frames = f :: callers)
    (hi : f.instr? = some i) {n : Nat} (hn : i.slot? = some n) : n < maxLocals := by
  obtain ⟨⟨name, hname⟩, d, hd⟩ := hm.frames f (by simp [hf])
  obtain ⟨_, _, ha, _⟩ := (hl.labelling name _ hname).admits hd hi
  exact ha.slot n hn

/-- The state comes up in a run of the bytecode, one without a limit on steps. -/
def Executing (b : Bytecode) (m : Machine) : Prop :=
  ∃ config input output loaded entered name, config.maxSteps = none ∧
    (fresh config input output).load b = .ok loaded ∧ loaded.enter name = .ok entered ∧
      Reaches entered m

namespace Executing

variable {b : Bytecode}

theorem reaches (h : Executing b m) (hm : Reaches m m') : Executing b m' := by
  obtain ⟨config, input, output, loaded, entered, name, hmax, hload, henter, hreach⟩ := h
  exact ⟨config, input, output, loaded, entered, name, hmax, hload, henter, hreach.trans hm⟩

theorem routines_eq (h : Executing b m) : m.routines = b.addTo [] := by
  obtain ⟨config, input, output, loaded, entered, name, _, hload, henter, hreach⟩ := h
  obtain ⟨_, rfl⟩ := load_fresh_eq_ok hload
  rw [hreach.sameSetting.routines]
  unfold Machine.enter at henter
  split at henter
  next => cases henter
  next =>
    cases henter
    rfl

theorem maxSteps_eq (h : Executing b m) : m.config.maxSteps = none := by
  obtain ⟨config, input, output, loaded, entered, name, hmax, hload, henter, hreach⟩ := h
  obtain ⟨_, rfl⟩ := load_fresh_eq_ok hload
  rw [hreach.sameSetting.config]
  unfold Machine.enter at henter
  split at henter
  next => cases henter
  next =>
    cases henter
    exact hmax

theorem slot_lt (h : Executing b m) (hb : b.checkBalance = .ok ()) {f : Frame}
    {callers : List Frame} {i : Instruction} (hf : m.frames = f :: callers)
    (hi : f.instr? = some i) {n : Nat} (hn : i.slot? = some n) : n < maxLocals := by
  obtain ⟨config, input, output, loaded, entered, name, _, hload, henter, hreach⟩ := h
  obtain ⟨_, rfl⟩ := load_fresh_eq_ok hload
  obtain ⟨depth, hl, _⟩ := Bytecode.exists_labelled hb
  exact ((Covered.enter hl rfl henter).reaches hl hreach).slot_lt hl hf hi hn

end Executing

end Machine

end RecordLang

import Mathlib.Algebra.Ring.Int.Defs
import Mathlib.Algebra.Ring.Nat
import RecordLang.Proofs.Balance.Coverage

/-! # Heights of the stack in checked code

In code that has passed the check, the height of a frame's stack hangs on nothing but the routine
and the index of the next instruction. So the stack never runs short, whatever the values are.
-/

namespace RecordLang

/-- An instruction puts at most one operand more on the stack than it takes, and takes few, unless
it is a call. -/
theorem Instruction.effect?_bounds {arity : String → Option Nat} {i : Instruction}
    {pops pushes : Nat} (h : i.effect? arity = some (pops, pushes)) :
    pushes ≤ pops + 1 ∧ (pops ≤ 2 ∨ ∃ name, arity name = some pops) := by
  cases i with
  | call name =>
    simp only [effect?, Option.map_eq_some_iff, Prod.mk.injEq] at h
    obtain ⟨n, hn, rfl, rfl⟩ := h
    exact ⟨by omega, .inr ⟨name, hn⟩⟩
  | _ =>
    simp only [effect?, Option.some.injEq, Prod.mk.injEq] at h
    obtain ⟨rfl, rfl⟩ := h
    omega

/-- Depths far from the end of the range do not wrap around. -/
theorem toInt_after {d : Int64} {pops pushes : Nat} (hd : d.toInt < 2 ^ 63 - 1)
    (hp : pops ≤ d.toInt) (hq : pushes ≤ pops + 1) :
    (d - Int64.ofNat pops + Int64.ofNat pushes).toInt = d.toInt - pops + pushes := by
  have hp' : (Int64.ofNat pops).toInt = pops := Int64.toInt_ofNat_of_lt (by omega)
  have hq' : (Int64.ofNat pushes).toInt = pushes := Int64.toInt_ofNat_of_lt (by omega)
  rw [Int64.toInt_add, Int64.toInt_sub, hp', hq',
    Int.bmod_eq_of_le (n := d.toInt - pops) (by omega) (by omega),
    Int.bmod_eq_of_le (by omega) (by omega)]

namespace Routine

variable {r : Routine} {arities : Table Nat} {k pc : Nat} {d : Int64}

theorem Admits.pops_le_of_lt {size pops pushes : Nat} {i : Instruction}
    (ha : Admits size arities i d pops pushes) (hlt : pops < 2 ^ 63) : pops ≤ d.toInt := by
  have h := ha.enough
  rw [Int64.lt_iff_toInt_lt, Int64.toInt_ofNat_of_lt hlt] at h
  omega

theorem Admits.pops_le {size pops pushes : Nat} {i : Instruction}
    (ha : Admits size arities i d pops pushes)
    (hall : ∀ name n, arities.get? name = some n → n < 2 ^ 62) : pops ≤ d.toInt := by
  apply ha.pops_le_of_lt
  rcases (Instruction.effect?_bounds ha.effect).2 with h | ⟨name, h⟩
  · omega
  · have := hall name pops h
    omega

theorem Path.depth_le (hp : Path r arities k pc d) (hr : r.arity < 2 ^ 62)
    (hall : ∀ name n, arities.get? name = some n → n < 2 ^ 62) (hk : k < 2 ^ 62) :
    0 ≤ d.toInt ∧ d.toInt ≤ r.arity + k := by
  induction hp with
  | start =>
    rw [Int64.toInt_ofNat_of_lt (by omega)]
    omega
  | @step k pc q d e next hp h hn hq ih =>
    obtain ⟨h₀, h₁⟩ := ih (by omega)
    obtain ⟨pops, pushes, ha, _, rfl⟩ := mem_successors hn hq
    have hpops := ha.pops_le hall
    have hpushes := (Instruction.effect?_bounds ha.effect).1
    rw [toInt_after (by omega) hpops hpushes]
    omega

end Routine

/-- Labels whose depths are true numbers of operands. -/
structure Measured (routines : Table Routine) (arities : Table Nat)
    (depth : Routine → Nat → Option Int64) : Prop extends Labelled routines arities depth where
  small : ∀ name n, arities.get? name = some n → n < 2 ^ 62
  bounds : ∀ name r, routines.get? name = some r → ∀ pc d, depth r pc = some d →
    0 ≤ d.toInt ∧ d.toInt < 2 ^ 63 - 1

theorem Bytecode.exists_measured {b : Bytecode} (harity : ∀ r ∈ b, r.arity < 2 ^ 62)
    (hsize : ∀ r ∈ b, r.code.size < 2 ^ 62) (hb : b.checkBalance = .ok ()) :
    ∃ depth, Measured (b.addTo []) (arities b) depth := by
  obtain ⟨depth, hl, hpath⟩ := exists_labelled hb
  have hmem : ∀ name r, (b.addTo []).get? name = some r → r ∈ b := by
    intro name r hr
    rcases get?_addTo hr with ⟨h, _⟩ | ⟨_, h⟩
    · exact h
    · cases h
  have hsmall : ∀ name n, (arities b).get? name = some n → n < 2 ^ 62 := by
    intro name n hn
    rw [b.arities_get?, Option.map_eq_some_iff] at hn
    obtain ⟨r, hr, rfl⟩ := hn
    exact harity r (hmem name r hr)
  refine ⟨depth, hl, hsmall, ?_⟩
  intro name r hr pc d hd
  obtain ⟨k, hk, hp⟩ := hpath name r hr pc d hd
  have ha := harity r (hmem name r hr)
  have hs := hsize r (hmem name r hr)
  have := hp.depth_le ha hsmall (by omega)
  omega

namespace Machine

variable {routines : Table Routine} {arities : Table Nat} {depth : Routine → Nat → Option Int64}
  {m m' : Machine} {f : Frame} {callers : List Frame}

def HeightIs (depth : Routine → Nat → Option Int64) (f : Frame) (n : Nat) : Prop :=
  ∃ d, depth f.routine f.pc = some d ∧ d.toInt = n

/-- The innermost frame has as many operands as its label says; a caller has one less, because its
label already counts the value that it waits for. -/
structure Balanced (routines : Table Routine) (depth : Routine → Nat → Option Int64)
    (m : Machine) : Prop extends Covered routines depth m where
  innermost : ∃ f callers, m.frames = f :: callers ∧ HeightIs depth f f.stack.length ∧
    ∀ g ∈ callers, HeightIs depth g (g.stack.length + 1)

theorem Balanced.step (hl : Measured routines arities depth) (hm : Balanced routines depth m)
    (h : m.step = .running m') : Balanced routines depth m' := by
  refine ⟨hm.toCovered.step hl.toLabelled h, ?_⟩
  obtain ⟨f, callers, i, hf, hi, hset, hmove⟩ := step_running h
  obtain ⟨f₁, callers₁, hf₁, ⟨d, hd, hlen⟩, hcallers⟩ := hm.innermost
  obtain ⟨rfl, rfl⟩ : f = f₁ ∧ callers = callers₁ := by
    rw [hf] at hf₁
    exact List.cons.inj hf₁
  obtain ⟨⟨name, hname⟩, _⟩ := hm.frames f (by simp [hf])
  obtain ⟨pops, pushes, ha, hfall, htarget⟩ := (hl.labelling name _ hname).admits hd hi
  have hbounds := hl.bounds name _ hname f.pc d hd
  have hafter := toInt_after hbounds.2 (ha.pops_le hl.small)
    (Instruction.effect?_bounds ha.effect).1
  generalize hfs : m'.frames = fs at hmove
  cases hmove with
  | @stay f' pops' vs _ hr hpc he hp hs _ =>
    refine ⟨f', callers, rfl, ?_, hcallers⟩
    obtain ⟨rfl, rfl⟩ : pops = pops' ∧ pushes = vs.length := by
      have h := ha.effect.symm.trans (Instruction.effect?_of_none he)
      exact Prod.mk.inj (Option.some.inj h)
    refine ⟨d - Int64.ofNat pops + Int64.ofNat vs.length, ?_, ?_⟩
    · rw [hr]
      rcases hpc with ⟨hpc, hft⟩ | ht
      · rw [hpc]
        exact hfall hft
      · exact htarget _ ht
    · rw [hafter, hlen, hs, List.length_append, List.length_drop]
      simp only [Frame.advance] at hp ⊢
      omega
  | @enter callee r hi' hr hle =>
    subst hi'
    rw [hm.routines_eq] at hr
    have hr' := hl.arity callee
    rw [hr] at hr'
    obtain ⟨rfl, rfl⟩ : pops = r.arity ∧ pushes = 1 := by
      have h := ha.effect
      simp only [Instruction.effect?, hr', Option.map_some, Option.some.injEq,
        Prod.mk.injEq] at h
      exact ⟨h.1.symm, h.2.symm⟩
    have hsmall := hl.small callee r.arity (by rw [hr']; rfl)
    refine ⟨_, _, rfl, ⟨_, (hl.labelling callee r hr).start, ?_⟩, ?_⟩
    · rw [Int64.toInt_ofNat_of_lt (by omega)]
      simp only [List.length_reverse, List.length_take]
      omega
    · intro g hg
      rcases List.mem_cons.mp hg with rfl | hg
      · refine ⟨_, hfall rfl, ?_⟩
        rw [hafter, hlen]
        simp only [Frame.advance, List.length_drop] at hle ⊢
        omega
      · exact hcallers g hg
  | @leave v s caller rest _ _ hc =>
    subst hc
    exact ⟨_, _, rfl, hcallers caller (.head _), fun g hg => hcallers g (.tail _ hg)⟩

theorem Balanced.reaches (hl : Measured routines arities depth) (hm : Balanced routines depth m)
    (h : Reaches m m') : Balanced routines depth m' :=
  h.preserves (fun _ _ hm h => hm.step hl h) hm

theorem Balanced.not_structural (hl : Measured routines arities depth)
    (hm : Balanced routines depth m) {e : Fault} (h : m.step = .stopped (.faulted e) m') :
    e.cause.isStructural = false := by
  obtain ⟨f, callers, hf, ⟨d, hd, hlen⟩, _⟩ := hm.innermost
  obtain ⟨⟨name, hname⟩, _⟩ := hm.frames f (by simp [hf])
  have hlab := hl.labelling name _ hname
  cases (step_stopped h).1 with
  | idle hf' => simp [hf] at hf'
  | @fellOff f' _ hf' hi =>
    obtain rfl : f = f' := (List.cons.inj (hf.symm.trans hf')).1
    have := hlab.lt_size hd
    simp [Frame.instr?] at hi
    omega
  | @failed f' _ i _ hf' hi hc =>
    obtain rfl : f = f' := (List.cons.inj (hf.symm.trans hf')).1
    obtain ⟨pops, pushes, ha, _⟩ := hlab.admits hd hi
    rw [hm.routines_eq] at hc
    generalize e.cause = c at hc
    cases c with
    | stackUnderflow =>
      obtain ⟨pops', pushes', he, hlt⟩ := hc
      have heq : pops = pops' := by
        have harity : arities.get? = fun name => (routines.get? name).map Routine.arity :=
          funext hl.arity
        have h := ha.effect
        rw [harity, he] at h
        exact (Prod.mk.inj (Option.some.inj h)).1.symm
      have := ha.pops_le hl.small
      simp only [Frame.advance] at hlt
      omega
    | slotOutOfRange n =>
      obtain ⟨rfl, hn⟩ := hc
      have := ha.slot n rfl
      omega
    | undefinedFunction callee =>
      obtain ⟨rfl, hn⟩ := hc
      have h := ha.effect
      simp [Instruction.effect?, hl.arity, hn] at h
    | _ => exact hc

theorem Balanced.enter (hl : Measured routines arities depth) {name : String} {r : Routine}
    (hm : m.routines = routines) (hr : routines.get? name = some r) (ha : r.arity = 0)
    {m₀ : Machine} (h : m.enter name = .ok m₀) :
    m₀.session = false ∧ Balanced routines depth m₀ := by
  rw [Machine.enter, hm, hr] at h
  cases h
  refine ⟨rfl, ⟨rfl, ?_⟩, ?_⟩
  · intro f hf
    obtain rfl := List.mem_singleton.mp hf
    exact ⟨⟨name, hr⟩, _, (hl.labelling name r hr).start⟩
  · refine ⟨_, _, rfl, ⟨_, (hl.labelling name r hr).start, ?_⟩, nofun⟩
    rw [ha]
    rfl

/-- A machine in balance that is no session ends a run with a value or with a fault that hangs on
values. -/
theorem Balanced.conclude (hl : Measured routines arities depth) (hm : Balanced routines depth m)
    (hs : m.session = false) {fuel : Nat} {exit : Exit} (h : m.runFor fuel = some (exit, m'))
    {e : Fault} {m₁ : Machine} (hc : m'.conclude exit = (.error e, m₁)) :
    e.cause.isStructural = false := by
  obtain ⟨n, m₂, _, hsteps, hstop⟩ := runFor_eq_some_iff.mp h
  have hm₂ := hm.reaches hl ⟨n, hsteps⟩
  unfold Machine.conclude Machine.flush at hc
  split at hc
  next hf =>
    cases exit with
    | finished v => cases hc
    | faulted e' =>
      obtain rfl := Except.error.inj (Prod.mk.inj hc).1
      exact hm₂.not_structural hl hstop
    | paused =>
      cases (step_stopped hstop).1 with
      | paused _ _ hs' =>
        have := (Reaches.sameSetting ⟨n, hsteps⟩).session
        rw [hs, hs'] at this
        cases this
  next hf =>
    split at hf
    next => cases hf
    next =>
      obtain rfl := Except.error.inj (Prod.mk.inj hc).1
      obtain rfl := Except.error.inj (Prod.mk.inj hf).1
      rfl

/-- In a run of checked code of ordinary size, the height of the stack before an instruction is
fixed by the routine and the index of the instruction, it is one before every return, and the run
does not fail for a defect of the code. -/
theorem checked_code_has_fixed_heights (b : Bytecode) (harity : ∀ r ∈ b, r.arity < 2 ^ 62)
    (hsize : ∀ r ∈ b, r.code.size < 2 ^ 62) :
    ∃ height : Routine → Nat → Nat,
      ∀ (config : Config) (input : List UInt8) (output : Output) (m : Machine) (name : String)
        (r : Routine), config.verify = true → (fresh config input output).load b = .ok m →
        m.routines.get? name = some r → r.arity = 0 →
        (∀ m₀ m₁ f callers, m.enter name = .ok m₀ → Reaches m₀ m₁ → m₁.frames = f :: callers →
          f.stack.length = height f.routine f.pc ∧
            (f.instr? = some .ret → f.stack.length = 1)) ∧
        ∀ fuel e m₁, m.callEntry fuel name = some (.error e, m₁) →
          e.cause.isStructural = false := by
  by_cases hb : b.checkBalance = .ok ()
  · obtain ⟨depth, hl⟩ := Bytecode.exists_measured harity hsize hb
    refine ⟨fun r pc => ((depth r pc).map fun d => d.toInt.toNat).getD 0, ?_⟩
    intro config input output m name r hverify hload hr ha
    obtain ⟨_, rfl⟩ := load_fresh_eq_ok hload
    constructor
    · intro m₀ m₁ f callers henter hreach hf
      have hm₁ := (Balanced.enter hl rfl hr ha henter).2.reaches hl hreach
      obtain ⟨f', _, hf', ⟨d, hd, hlen⟩, _⟩ := hm₁.innermost
      obtain rfl : f = f' := (List.cons.inj (hf.symm.trans hf')).1
      refine ⟨?_, ?_⟩
      · simp only [hd, Option.map_some, Option.getD_some]
        omega
      · intro hi
        obtain ⟨⟨name, hname⟩, _⟩ := hm₁.frames f (by simp [hf])
        obtain ⟨_, _, hadm, _⟩ := (hl.labelling name _ hname).admits hd hi
        rw [hadm.ret rfl] at hlen
        exact (Int.ofNat.inj hlen).symm
    · intro fuel e m₁ hrun
      unfold callEntry at hrun
      split at hrun
      next e' henter =>
        simp only [enter, hr] at henter
        cases henter
      next m₀ henter =>
        obtain ⟨hsession, hbal⟩ := Balanced.enter hl rfl hr ha henter
        obtain ⟨⟨exit, m₂⟩, hrun, hconclude⟩ := Option.map_eq_some_iff.mp hrun
        exact hbal.conclude hl hsession hrun hconclude
  · refine ⟨fun _ _ => 0, ?_⟩
    intro config input output m name r hverify hload
    exact absurd ((load_fresh_eq_ok hload).1 hverify) hb

/-- Code that counts an argument down to zero by calling itself. -/
def countdown : Bytecode :=
  [⟨"main", 0, #[.push (.int 3), .call "down", .ret]⟩,
    ⟨"down", 1, #[.store 0, .load 0, .push (.int 0), .binary .eq, .jumpIfFalse 7, .load 0, .ret,
      .load 0, .push (.int 1), .binary .sub, .call "down", .ret]⟩]

theorem countdown_has_fixed_heights :
    ∃ (height : Routine → Nat → Nat) (m : Machine) (r : Routine),
      (fresh {} [] {}).load countdown = .ok m ∧ m.routines.get? "main" = some r ∧ r.arity = 0 ∧
      (∀ m₀ m₁ f callers, m.enter "main" = .ok m₀ → Reaches m₀ m₁ → m₁.frames = f :: callers →
        f.stack.length = height f.routine f.pc ∧ (f.instr? = some .ret → f.stack.length = 1)) ∧
      ∀ fuel e m₁, m.callEntry fuel "main" = some (.error e, m₁) →
        e.cause.isStructural = false := by
  obtain ⟨height, h⟩ := checked_code_has_fixed_heights countdown (by decide) (by decide)
  have hbalance : countdown.checkBalance = .ok () := by decide +kernel
  have hload : (fresh {} [] {}).load countdown =
      .ok { config := {}, input := [], output := {}, routines := countdown.addTo [] } := by
    rw [load_fresh, hbalance]
    rfl
  exact ⟨height, _, _, hload, rfl, rfl, h _ _ _ _ _ _ rfl hload rfl rfl⟩

end Machine

end RecordLang

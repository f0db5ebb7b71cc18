import RecordLang.Bytecode.Balance

/-! # Depths of a balanced routine

A routine is balanced exactly if its instructions can be labelled with depths of the stack that
every step of control respects. The labels that the check finds belong to ways through the routine
which come to no instruction twice.
-/

namespace RecordLang.Routine

variable {r : Routine} {arities : Table Nat} {depth : Nat → Option Int64}

/-- The ways through a routine: after that many steps, control is at an instruction with that depth
of the stack. -/
inductive Path (r : Routine) (arities : Table Nat) : Nat → Nat → Int64 → Prop where
  | start : Path r arities 0 0 (Int64.ofNat r.arity)
  | step {k pc q : Nat} {d e : Int64} {next : List (Nat × Int64)} (hp : Path r arities k pc d)
      (h : pc < r.code.size) (hn : successors r.code.size arities pc r.code[pc] d = .ok next)
      (hq : (q, e) ∈ next) : Path r arities (k + 1) q e

/-- From the instruction at `pc` with the depth `d`, control goes on to where the labels say so. -/
def Steady (r : Routine) (arities : Table Nat) (depth : Nat → Option Int64) (pc : Nat)
    (d : Int64) : Prop :=
  ∃ (h : pc < r.code.size) (next : List (Nat × Int64)),
    successors r.code.size arities pc r.code[pc] d = .ok next ∧
      ∀ q e, (q, e) ∈ next → depth q = some e

structure Labelling (r : Routine) (arities : Table Nat) (depth : Nat → Option Int64) : Prop where
  start : depth 0 = some (Int64.ofNat r.arity)
  steady : ∀ pc d, depth pc = some d → r.Steady arities depth pc d

theorem explore_of_labelling (hl : ∀ pc d, depth pc = some d → r.Steady arities depth pc d)
    (seen : Vector (Option Int64) r.code.size) (work : List (Nat × Int64))
    (hseen : ∀ pc d (h : pc < r.code.size), seen[pc] = some d → depth pc = some d)
    (hwork : ∀ pc d, (pc, d) ∈ work → depth pc = some d) :
    r.explore arities seen work = .ok () := by
  fun_induction explore r arities seen work with
  | case1 => rfl
  | case2 seen pc rest h d hs ih => exact ih hseen fun q e hq => hwork q e (.tail _ hq)
  | case3 seen pc d rest h d' hs hne =>
    have h₁ := hseen pc d' h hs
    have h₂ := hwork pc d (.head _)
    rw [h₁, Option.some.injEq] at h₂
    exact absurd h₂ hne
  | case4 seen pc d rest h hs e he =>
    obtain ⟨_, next, hn, _⟩ := hl pc d (hwork pc d (.head _))
    rw [he] at hn
    cases hn
  | case5 seen pc d rest h hs next hn ih =>
    obtain ⟨_, next', hn', hnext⟩ := hl pc d (hwork pc d (.head _))
    obtain rfl : next = next' := by
      rw [hn] at hn'
      exact Except.ok.inj hn'
    apply ih
    · intro q e hq hset
      rw [Vector.getElem_set] at hset
      split at hset
      next heq =>
        subst heq
        obtain rfl := Option.some.inj hset
        exact hwork pc d (.head _)
      next => exact hseen q e hq hset
    · intro q e hq
      rcases List.mem_append.mp hq with hq | hq
      · exact hnext q e hq
      · exact hwork q e (.tail _ hq)
  | case6 seen pc d rest h =>
    obtain ⟨h', _⟩ := hl pc d (hwork pc d (.head _))
    exact absurd h' h

theorem checkBalance_of_labelling (hl : r.Labelling arities depth) :
    r.checkBalance arities = .ok () := by
  apply explore_of_labelling hl.steady
  · intro pc d h hs
    simp at hs
  · intro pc d hw
    simp only [List.mem_singleton, Prod.mk.injEq] at hw
    obtain ⟨rfl, rfl⟩ := hw
    exact hl.start

theorem countP_isSome_set {n : Nat} (seen : Vector (Option Int64) n) {pc : Nat} (h : pc < n)
    (hs : seen[pc] = none) (d : Int64) :
    (seen.set pc (some d)).countP Option.isSome = seen.countP Option.isSome + 1 := by
  rw [Vector.countP_set]
  simp [hs]

theorem countP_isSome_lt {n : Nat} (seen : Vector (Option Int64) n) {pc : Nat} (h : pc < n)
    (hs : seen[pc] = none) : seen.countP Option.isSome < n := by
  have h₁ := countP_isSome_set seen h hs 0
  have h₂ : (seen.set pc (some 0)).countP Option.isSome ≤ n := Vector.countP_le_size
  omega

/-- What has been explored extends to labels that fit; each new label belongs to a short way. -/
theorem explore_eq_ok (seen : Vector (Option Int64) r.code.size) (work : List (Nat × Int64))
    (hwork : ∀ pc d, (pc, d) ∈ work →
      ∃ k ≤ seen.countP Option.isSome, Path r arities k pc d)
    (hok : r.explore arities seen work = .ok ()) :
    ∃ depth : Nat → Option Int64,
      (∀ pc d (h : pc < r.code.size), seen[pc] = some d → depth pc = some d) ∧
      (∀ pc d, (pc, d) ∈ work → depth pc = some d) ∧
      ∀ pc d, depth pc = some d → (∃ h : pc < r.code.size, seen[pc] = some d) ∨
        (r.Steady arities depth pc d ∧ ∃ k < r.code.size, Path r arities k pc d) := by
  fun_induction explore r arities seen work with
  | case1 seen =>
    refine ⟨fun pc => seen[pc]?.join, ?_, by simp, ?_⟩
    · intro pc d h hs
      simp [h, hs]
    · intro pc d hd
      by_cases h : pc < r.code.size
      · exact .inl ⟨h, by simpa [h] using hd⟩
      · simp [h] at hd
  | case2 seen pc rest h d hs ih =>
    obtain ⟨depth, h₁, h₂, h₃⟩ := ih (fun q e hq => hwork q e (.tail _ hq)) hok
    refine ⟨depth, h₁, ?_, h₃⟩
    intro q e hq
    rcases List.mem_cons.mp hq with hq | hq
    · obtain ⟨rfl, rfl⟩ := Prod.mk.inj hq
      exact h₁ q e h hs
    · exact h₂ q e hq
  | case3 => simp at hok
  | case4 => simp at hok
  | case5 seen pc d rest h hs next hn ih =>
    obtain ⟨k, hk, hpath⟩ := hwork pc d (.head _)
    have hcount := countP_isSome_set seen h hs d
    have hlt := countP_isSome_lt seen h hs
    have hwork' : ∀ q e, (q, e) ∈ next ++ rest →
        ∃ k ≤ (seen.set pc (some d)).countP Option.isSome, Path r arities k q e := by
      intro q e hq
      rcases List.mem_append.mp hq with hq | hq
      · exact ⟨k + 1, by omega, .step hpath h hn hq⟩
      · obtain ⟨k', hk', hp'⟩ := hwork q e (.tail _ hq)
        exact ⟨k', by omega, hp'⟩
    obtain ⟨depth, h₁, h₂, h₃⟩ := ih hwork' hok
    have hpc : depth pc = some d := h₁ pc d h (by simp)
    refine ⟨depth, ?_, ?_, ?_⟩
    · intro q e hq hs'
      apply h₁ q e hq
      rw [Vector.getElem_set]
      split
      next heq => subst heq; rw [hs] at hs'; cases hs'
      next => exact hs'
    · intro q e hq
      rcases List.mem_cons.mp hq with hq | hq
      · obtain ⟨rfl, rfl⟩ := Prod.mk.inj hq
        exact hpc
      · exact h₂ q e (List.mem_append_right _ hq)
    · intro q e hq
      rcases h₃ q e hq with ⟨hlt', hset⟩ | hst
      · rw [Vector.getElem_set] at hset
        split at hset
        next heq =>
          subst heq
          obtain rfl := Option.some.inj hset
          refine .inr ⟨⟨h, next, hn, ?_⟩, k, by omega, hpath⟩
          intro q' e' hq'
          exact h₂ q' e' (List.mem_append_left _ hq')
        next => exact .inl ⟨hlt', hset⟩
      · exact .inr hst
  | case6 => simp at hok

/-- A balanced routine has labels, each of which belongs to a way that is shorter than the code. -/
theorem exists_labelling (hok : r.checkBalance arities = .ok ()) :
    ∃ depth : Nat → Option Int64, r.Labelling arities depth ∧
      ∀ pc d, depth pc = some d → ∃ k < r.code.size, Path r arities k pc d := by
  have hwork : ∀ pc d, (pc, d) ∈ [(0, Int64.ofNat r.arity)] →
      ∃ k ≤ (Vector.replicate r.code.size (none : Option Int64)).countP Option.isSome,
        Path r arities k pc d := by
    intro pc d hw
    simp only [List.mem_singleton, Prod.mk.injEq] at hw
    obtain ⟨rfl, rfl⟩ := hw
    exact ⟨0, Nat.zero_le _, .start⟩
  obtain ⟨depth, _, h₂, h₃⟩ := explore_eq_ok _ _ hwork hok
  have hall : ∀ pc d, depth pc = some d →
      r.Steady arities depth pc d ∧ ∃ k < r.code.size, Path r arities k pc d := by
    intro pc d hd
    rcases h₃ pc d hd with ⟨h, hs⟩ | h
    · simp at hs
    · exact h
  exact ⟨depth, ⟨h₂ _ _ (.head _), fun pc d hd => (hall pc d hd).1⟩,
    fun pc d hd => (hall pc d hd).2⟩

/-- What the check asks of an instruction that is met with the depth `d`. -/
structure Admits (size : Nat) (arities : Table Nat) (i : Instruction) (d : Int64)
    (pops pushes : Nat) : Prop where
  slot : ∀ n, i.slot? = some n → n < maxLocals
  effect : i.effect? arities.get? = some (pops, pushes)
  enough : ¬ d < Int64.ofNat pops
  ret : i = .ret → d = 1
  target : ∀ t, i.target? = some t → t < size

theorem successors_eq_ok_iff {size pc : Nat} {i : Instruction} {d : Int64}
    {next : List (Nat × Int64)} :
    successors size arities pc i d = .ok next ↔
      ∃ pops pushes, Admits size arities i d pops pushes ∧
        next = (if i.fallsThrough then [pc + 1] else []).map
            (·, d - Int64.ofNat pops + Int64.ofNat pushes) ++
          i.target?.toList.map (·, d - Int64.ofNat pops + Int64.ofNat pushes) := by
  constructor
  · intro h
    unfold successors at h
    split at h
    next => cases h
    next hslot =>
      have hslot' : ∀ n, i.slot? = some n → n < maxLocals := by
        intro n hn
        simpa [hn] using hslot
      split at h
      next => cases h
      next pops pushes he =>
        simp only at h
        split at h
        next => cases h
        next henough =>
          split at h
          next hret =>
            subst hret
            split at h
            next hd =>
              cases h
              exact ⟨pops, pushes, ⟨hslot', he, henough, fun _ => hd, nofun⟩, rfl⟩
            next => cases h
          next hret =>
            split at h
            next ht =>
              cases h
              refine ⟨pops, pushes, ⟨hslot', he, henough, fun h => absurd h hret, ?_⟩, ?_⟩
              · simp [ht]
              · simp only [ht, Option.toList_none, List.map_nil, List.append_nil]
                split <;> rfl
            next t ht =>
              split at h
              next hlt =>
                cases h
                refine ⟨pops, pushes, ⟨hslot', he, henough, fun h => absurd h hret, ?_⟩, ?_⟩
                · simpa [ht] using hlt
                · simp only [ht, Option.toList_some, List.map_cons, List.map_nil]
                  split <;> rfl
              next => cases h
  · rintro ⟨pops, pushes, ha, rfl⟩
    have hslot : ¬ i.slot?.any (maxLocals ≤ ·) = true := by
      cases hn : i.slot? with
      | none => simp
      | some n => simpa using ha.slot n hn
    unfold successors
    rw [if_neg hslot, ha.effect]
    simp only [if_neg ha.enough]
    by_cases hret : i = .ret
    · rw [if_pos hret, if_pos (ha.ret hret)]
      subst hret
      rfl
    · rw [if_neg hret]
      cases ht : i.target? with
      | none =>
        simp only [Option.toList_none, List.map_nil, List.append_nil]
        split <;> rfl
      | some t =>
        simp only [if_pos (ha.target t ht), Option.toList_some, List.map_cons, List.map_nil]
        split <;> rfl

variable {pc : Nat} {d : Int64} {i : Instruction}

/-- The check goes on to the instructions that control can come to, with the depth that the effect
of this one leaves. -/
theorem mem_successors {size q : Nat} {e : Int64} {next : List (Nat × Int64)}
    (hn : successors size arities pc i d = .ok next) (hq : (q, e) ∈ next) :
    ∃ pops pushes, Admits size arities i d pops pushes ∧
      (i.fallsThrough = true ∧ q = pc + 1 ∨ i.target? = some q) ∧
      e = d - Int64.ofNat pops + Int64.ofNat pushes := by
  obtain ⟨pops, pushes, ha, rfl⟩ := successors_eq_ok_iff.mp hn
  refine ⟨pops, pushes, ha, ?_⟩
  rcases List.mem_append.mp hq with hq | hq
  · obtain ⟨q', hq', heq⟩ := List.mem_map.mp hq
    cases heq
    split at hq'
    next hf => exact ⟨.inl ⟨hf, by simpa using hq'⟩, rfl⟩
    next => cases hq'
  · obtain ⟨t, ht, heq⟩ := List.mem_map.mp hq
    cases heq
    exact ⟨.inr (by simpa using ht), rfl⟩

theorem Labelling.lt_size (hl : r.Labelling arities depth) (hd : depth pc = some d) :
    pc < r.code.size := (hl.steady pc d hd).1

theorem Labelling.admits (hl : r.Labelling arities depth) (hd : depth pc = some d)
    (hi : r.code[pc]? = some i) :
    ∃ pops pushes, Admits r.code.size arities i d pops pushes ∧
      (i.fallsThrough = true →
        depth (pc + 1) = some (d - Int64.ofNat pops + Int64.ofNat pushes)) ∧
      ∀ t, i.target? = some t → depth t = some (d - Int64.ofNat pops + Int64.ofNat pushes) := by
  obtain ⟨h, next, hn, hnext⟩ := hl.steady pc d hd
  obtain rfl : r.code[pc] = i := by simpa [h] using hi
  obtain ⟨pops, pushes, ha, rfl⟩ := successors_eq_ok_iff.mp hn
  refine ⟨pops, pushes, ha, ?_, ?_⟩
  · intro hf
    apply hnext
    simp [hf]
  · intro t ht
    apply hnext
    simp [ht]

end RecordLang.Routine

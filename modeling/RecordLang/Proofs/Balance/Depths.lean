import RecordLang.Proofs.Assembly.Labels
import RecordLang.Proofs.Balance.Labelling

/-! # Depths along directives

If the depth of the stack is followed along a row of directives, with depth zero at all labels and
jumps, then the routine that is assembled from them is balanced.
-/

namespace RecordLang

/-- Directives take the stack from the depth `d` to the depth `e` and never beyond `top`. At labels
and behind jumps the stack is empty; behind a `return` a new statement may begin. -/
inductive Leads (arity : String → Option Nat) (top : Nat) : Nat → List Directive → Nat → Prop where
  | nil {d : Nat} (hd : d ≤ top) : Leads arity top d [] d
  | emit {d d' e pops pushes : Nat} {i : Instruction} {ds : List Directive}
      (hfall : i.fallsThrough = true) (htarget : i.target? = none)
      (heffect : i.effect? arity = some (pops, pushes)) (hpops : pops ≤ d)
      (hafter : d' + pops = d + pushes) (hd : d ≤ top) (h : Leads arity top d' ds e) :
      Leads arity top d (.emit i :: ds) e
  | ret {e : Nat} {ds : List Directive} (h : Leads arity top 0 ds e) :
      Leads arity top 1 (.emit .ret :: ds) e
  | newLabel {d e : Nat} {ds : List Directive} (h : Leads arity top d ds e) :
      Leads arity top d (.newLabel :: ds) e
  | bind {e : Nat} {ds : List Directive} (l : Nat) (h : Leads arity top 0 ds e) :
      Leads arity top 0 (.bind l :: ds) e
  | jump {e : Nat} {ds : List Directive} (l : Nat) (h : Leads arity top 0 ds e) :
      Leads arity top 0 (.jump l :: ds) e
  | jumpIfFalse {e : Nat} {ds : List Directive} (l : Nat) (h : Leads arity top 0 ds e) :
      Leads arity top 1 (.jumpIfFalse l :: ds) e

variable {arity : String → Option Nat} {top d e e' : Nat} {ds ds' : List Directive}

theorem Leads.append (h : Leads arity top d ds e) (h' : Leads arity top e ds' e') :
    Leads arity top d (ds ++ ds') e' := by
  induction h with
  | nil _ => exact h'
  | emit hfall htarget heffect hpops hafter hd _ ih =>
    exact .emit hfall htarget heffect hpops hafter hd (ih h')
  | ret _ ih => exact .ret (ih h')
  | newLabel _ ih => exact .newLabel (ih h')
  | bind l _ ih => exact .bind l (ih h')
  | jump l _ ih => exact .jump l (ih h')
  | jumpIfFalse l _ ih => exact .jumpIfFalse l (ih h')

/-- What depths have to satisfy at an instruction: `d` is the depth before it, `d'` the depth before
the instruction behind it. -/
structure DepthStep (arity : String → Option Nat) (top : Nat) (place : Nat → Nat)
    (labels : List Nat) (i : Instruction) (d d' pops pushes : Nat) : Prop where
  effect : i.effect? arity = some (pops, pushes)
  enough : pops ≤ d
  le_top : d ≤ max top 1
  ret : i = .ret → d = 1
  behind : i.fallsThrough = true → d' + pops = d + pushes
  target : ∀ t, i.target? = some t → (∃ l ∈ labels, t = place l) ∧ pops = d ∧ pushes = 0

/-- The depths before all instructions of a row of directives and behind the last one. -/
structure Depths (arity : String → Option Nat) (top : Nat) (place : Nat → Nat) (ds : List Directive)
    (depth : Nat → Nat) : Prop where
  steps : ∀ j i, (linked place ds)[j]? = some i →
    ∃ pops pushes, DepthStep arity top place (goals ds) i (depth j) (depth (j + 1)) pops pushes
  labels : ∀ base, Placed place base ds → ∀ l ∈ boundLabels ds,
    ∃ j, place l = base + j ∧ depth j = 0

def depthBefore (d : Nat) (depth : Nat → Nat) : Nat → Nat
  | 0 => d
  | j + 1 => depth j

variable {place : Nat → Nat} {depth : Nat → Nat}

theorem depthBefore_codeSize {dir : Directive} (hsize : dir.size = 1)
    (hend : depth (codeSize ds) = e) : depthBefore d depth (codeSize (dir :: ds)) = e := by
  rw [codeSize_cons, hsize, Nat.add_comm]
  exact hend

theorem Depths.cons {dir : Directive} {i : Instruction} (pops pushes : Nat)
    (h : Depths arity top place ds depth) (hlinked : dir.linked place = [i])
    (hbound : dir.bound? = none)
    (hstep : DepthStep arity top place (goals (dir :: ds)) i d (depth 0) pops pushes) :
    Depths arity top place (dir :: ds) (depthBefore d depth) := by
  have hsize : dir.size = 1 := by rw [← dir.length_linked place, hlinked]; rfl
  refine ⟨?_, ?_⟩
  · intro j i' hi
    rw [linked_cons, hlinked] at hi
    cases j with
    | zero =>
      cases hi
      exact ⟨pops, pushes, hstep⟩
    | succ j =>
      obtain ⟨pops', pushes', hs⟩ := h.steps j i' hi
      refine ⟨pops', pushes', hs.effect, hs.enough, hs.le_top, hs.ret, hs.behind, ?_⟩
      intro t ht
      obtain ⟨⟨l, hl, rfl⟩, htarget⟩ := hs.target t ht
      exact ⟨⟨l, by rw [goals_cons]; exact List.mem_append_right _ hl, rfl⟩, htarget⟩
  · intro base hplaced l hl
    rw [boundLabels_cons, hbound] at hl
    obtain ⟨_, hplaced⟩ := hplaced
    rw [hsize] at hplaced
    obtain ⟨j, hj, hzero⟩ := h.labels (base + 1) hplaced l hl
    exact ⟨j + 1, by omega, hzero⟩

/-- Directives that lead from one depth to another have depths at all their instructions. -/
theorem Leads.exists_depths (h : Leads arity top d ds e) (place : Nat → Nat) :
    ∃ depth : Nat → Nat, depth 0 = d ∧ depth (codeSize ds) = e ∧
      Depths arity top place ds depth := by
  induction h with
  | @nil d _ => exact ⟨fun _ => d, rfl, rfl, by rintro _ _ ⟨⟩, by rintro _ _ _ ⟨⟩⟩
  | @emit d d' e pops pushes i ds hfall htarget heffect hpops hafter hd _ ih =>
    obtain ⟨depth, rfl, hend, hdepth⟩ := ih
    refine ⟨depthBefore d depth, rfl, depthBefore_codeSize rfl hend,
      hdepth.cons pops pushes rfl rfl ?_⟩
    refine ⟨heffect, hpops, by omega, ?_, fun _ => hafter, ?_⟩
    · rintro rfl
      cases hfall
    · intro t ht
      rw [htarget] at ht
      cases ht
  | @ret e ds _ ih =>
    obtain ⟨depth, hzero, hend, hdepth⟩ := ih
    refine ⟨depthBefore 1 depth, rfl, depthBefore_codeSize rfl hend, hdepth.cons 1 0 rfl rfl ?_⟩
    refine ⟨rfl, Nat.le_refl 1, by omega, fun _ => rfl, ?_, ?_⟩
    · rintro ⟨⟩
    · rintro _ ⟨⟩
  | @newLabel d e ds _ ih =>
    obtain ⟨depth, hd, hend, hdepth⟩ := ih
    refine ⟨depth, hd, ?_, hdepth.steps, fun base hplaced => hdepth.labels base hplaced.2⟩
    rw [codeSize_cons, Directive.size, Nat.zero_add, hend]
  | @bind e ds l _ ih =>
    obtain ⟨depth, hzero, hend, hdepth⟩ := ih
    refine ⟨depth, hzero, ?_, hdepth.steps, ?_⟩
    · rw [codeSize_cons, Directive.size, Nat.zero_add, hend]
    · intro base hplaced l' hl'
      rcases List.mem_cons.mp hl' with rfl | hl'
      · exact ⟨0, hplaced.1 l' rfl, hzero⟩
      · exact hdepth.labels base hplaced.2 l' hl'
  | @jump e ds l _ ih =>
    obtain ⟨depth, hzero, hend, hdepth⟩ := ih
    refine ⟨depthBefore 0 depth, rfl, depthBefore_codeSize rfl hend, hdepth.cons 0 0 rfl rfl ?_⟩
    refine ⟨rfl, Nat.le_refl 0, by omega, ?_, ?_, ?_⟩
    · rintro ⟨⟩
    · rintro ⟨⟩
    · rintro t ⟨⟩
      exact ⟨⟨l, by simp [Directive.goal?], rfl⟩, rfl, rfl⟩
  | @jumpIfFalse e ds l _ ih =>
    obtain ⟨depth, hzero, hend, hdepth⟩ := ih
    refine ⟨depthBefore 1 depth, rfl, depthBefore_codeSize rfl hend, hdepth.cons 1 0 rfl rfl ?_⟩
    refine ⟨rfl, Nat.le_refl 1, by omega, ?_, fun _ => by omega, ?_⟩
    · rintro ⟨⟩
    · rintro t ⟨⟩
      exact ⟨⟨l, by simp [Directive.goal?], rfl⟩, rfl, rfl⟩

theorem Placed.le {base l : Nat} (h : Placed place base ds) (hl : l ∈ boundLabels ds) :
    place l ≤ base + codeSize ds := by
  induction ds generalizing base with
  | nil => cases hl
  | cons dir ds ih =>
    rw [codeSize_cons]
    rw [boundLabels_cons] at hl
    rcases List.mem_append.mp hl with hl | hl
    · have := h.1 l (by simpa using hl)
      omega
    · have := ih h.2 hl
      omega

theorem back?_of_linked {code : Array Instruction} {init : List Directive} {i : Instruction}
    (hcode : code.toList = linked place (init ++ [Directive.emit i])) : code.back? = some i := by
  rw [← Array.getLast?_toList, hcode, linked_append]
  exact List.getLast?_concat

theorem Placed.lt_size {l : Nat} {code : Array Instruction} {init : List Directive}
    {i : Instruction} (h : Placed place 0 (init ++ [Directive.emit i]))
    (hcode : code.toList = linked place (init ++ [Directive.emit i])) (hl : l ∈ boundLabels init) :
    place l < code.size := by
  have hle := (placed_append.mp h).1.le hl
  have hsize : code.size = codeSize init + 1 := by
    rw [← Array.length_toList, hcode, length_linked, codeSize_append]
    rfl
  omega

theorem Placed.ge {base l : Nat} (h : Placed place base ds) (hl : l ∈ boundLabels ds) :
    base ≤ place l := by
  induction ds generalizing base with
  | nil => cases hl
  | cons dir ds ih =>
    rw [boundLabels_cons] at hl
    rcases List.mem_append.mp hl with hl | hl
    · exact Nat.le_of_eq (h.1 l (by simpa using hl)).symm
    · exact Nat.le_trans (Nat.le_add_right _ _) (ih h.2 hl)

theorem ofNat_after {a b c x : Nat} (h : x + b = a + c) :
    Int64.ofNat a - Int64.ofNat b + Int64.ofNat c = Int64.ofNat x := by
  have h' : Int64.ofNat x + Int64.ofNat b = Int64.ofNat a + Int64.ofNat c := by
    rw [← Int64.ofNat_add, h, Int64.ofNat_add]
  grind

theorem DepthStep.admits {arities : Table Nat} {labels : List Nat} {i : Instruction}
    {d d' pops pushes size : Nat}
    (h : DepthStep arities.get? top place labels i d d' pops pushes) (htop : top < 2 ^ 63)
    (hslot : ∀ n, i.slot? = some n → n < maxLocals)
    (hlabels : ∀ l ∈ labels, place l < size) :
    Routine.Admits size arities i (Int64.ofNat d) pops pushes := by
  have htop' := h.le_top
  have henough := h.enough
  refine ⟨hslot, h.effect, ?_, ?_, ?_⟩
  · rw [Int64.lt_iff_toInt_lt, Int64.toInt_ofNat_of_lt (by omega),
      Int64.toInt_ofNat_of_lt (by omega)]
    omega
  · intro hi
    rw [h.ret hi]
    rfl
  · intro t ht
    obtain ⟨⟨l, hl, rfl⟩, _⟩ := h.target t ht
    exact hlabels l hl

def Routine.depthLabel (r : Routine) (depth : Nat → Nat) (pc : Nat) : Option Int64 :=
  if pc < r.code.size then some (Int64.ofNat (depth pc)) else none

/-- Depths label a routine if its slots are in range, its last instruction is a `return` and the
stack is empty where its jumps go to. -/
theorem Depths.labelling {r : Routine} {arities : Table Nat}
    (h : Depths arities.get? top place ds depth) (hcode : r.code.toList = linked place ds)
    (hslots : ∀ i ∈ r.code, ∀ n, i.slot? = some n → n < maxLocals)
    (hstart : depth 0 = r.arity) (hlast : r.code.back? = some .ret)
    (hlabels : ∀ l ∈ goals ds, place l < r.code.size ∧ depth (place l) = 0) (htop : top < 2 ^ 63) :
    r.Labelling arities (r.depthLabel depth) := by
  have hsize : 0 < r.code.size := by
    rw [Array.size_pos_iff]
    intro hempty
    rw [hempty] at hlast
    cases hlast
  refine ⟨by simp [Routine.depthLabel, hsize, hstart], ?_⟩
  intro pc d hd
  unfold Routine.depthLabel at hd
  split at hd
  next hpc =>
    cases hd
    have hi : (linked place ds)[pc]? = some r.code[pc] := by
      rw [← hcode, Array.getElem?_toList]
      simp [hpc]
    obtain ⟨pops, pushes, hstep⟩ := h.steps pc _ hi
    have hadmits := hstep.admits htop (hslots _ (Array.getElem_mem hpc)) fun l hl =>
      (hlabels l hl).1
    refine ⟨hpc, _, Routine.successors_eq_ok_iff.mpr ⟨pops, pushes, hadmits, rfl⟩, ?_⟩
    intro q d' hq
    rcases List.mem_append.mp hq with hq | hq
    · -- control goes on to the instruction behind, which is there as only the last one is a
      -- `return`
      obtain ⟨q', hq', heq⟩ := List.mem_map.mp hq
      cases heq
      split at hq'
      next hfall =>
        obtain rfl : q = pc + 1 := by simpa using hq'
        have hne : pc ≠ r.code.size - 1 := by
          rintro rfl
          obtain heq : r.code[r.code.size - 1] = .ret := by
            simpa [Array.back?_eq_getElem?, hpc] using hlast
          rw [heq] at hfall
          cases hfall
        have hlt : pc + 1 < r.code.size := by omega
        rw [ofNat_after (hstep.behind hfall), Routine.depthLabel, if_pos hlt]
      next => cases hq'
    · obtain ⟨t, ht, heq⟩ := List.mem_map.mp hq
      cases heq
      obtain ⟨⟨l, hmem, rfl⟩, hpops, rfl⟩ := hstep.target q (by simpa using ht)
      obtain ⟨hlt, hempty⟩ := hlabels l hmem
      rw [ofNat_after (x := 0) (by omega), Routine.depthLabel, if_pos hlt, hempty]
  next => cases hd

/-- A routine whose directives lead from its arguments to a `return` at its end is balanced. -/
theorem Routine.checkBalance_of_leads {r : Routine} {arities : Table Nat} {init : List Directive}
    (hcode : r.code.toList = linked place (init ++ [Directive.emit .ret]))
    (hplaced : Placed place 0 (init ++ [Directive.emit .ret]))
    (hslots : ∀ i ∈ r.code, ∀ n, i.slot? = some n → n < maxLocals)
    (hgoals : ∀ l ∈ goals init, l ∈ boundLabels init)
    (h : Leads arities.get? top r.arity (init ++ [Directive.emit .ret]) e) (htop : top < 2 ^ 63) :
    r.checkBalance arities = .ok () := by
  obtain ⟨depth, hzero, _, hdepth⟩ := h.exists_depths place
  have hlast := back?_of_linked hcode
  have hlabels : ∀ l ∈ goals (init ++ [Directive.emit .ret]),
      place l < r.code.size ∧ depth (place l) = 0 := by
    intro l hl
    have hbound : l ∈ boundLabels init := hgoals l (by simpa [Directive.goal?] using hl)
    obtain ⟨j, hj, hdj⟩ := hdepth.labels 0 hplaced l (by simp [hbound])
    rw [Nat.zero_add] at hj
    exact ⟨hplaced.lt_size hcode hbound, hj ▸ hdj⟩
  exact checkBalance_of_labelling (hdepth.labelling hcode hslots hzero hlast hlabels htop)

end RecordLang

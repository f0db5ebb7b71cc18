import RecordLang.Proofs.Balance.Heights

/-! # All ways through a routine

The check goes to each instruction once. It accepts a routine exactly if no way through the routine,
however long, ever does what is not allowed, and all ways that come to an instruction come to it
with the same number of operands.
-/

namespace RecordLang

namespace Instruction

variable {i : Instruction} {pc q n : Nat}

theorem slot?_eq_some_iff : i.slot? = some n ↔ i = .load n ∨ i = .store n := by
  cases i <;> simp [slot?]

theorem target?_eq_some_iff : i.target? = some n ↔ i = .jump n ∨ i = .jumpIfFalse n := by
  cases i <;> simp [target?]

theorem fallsThrough_iff : i.fallsThrough = true ↔ (∀ t, i ≠ .jump t) ∧ i ≠ .ret := by
  cases i <;> simp [fallsThrough]

theorem leads_iff :
    i.fallsThrough = true ∧ q = pc + 1 ∨ i.target? = some q ↔
      ((∀ t, i ≠ .jump t) ∧ i ≠ .ret) ∧ q = pc + 1 ∨ i = .jump q ∨ i = .jumpIfFalse q := by
  rw [fallsThrough_iff, target?_eq_some_iff]

end Instruction

namespace Routine

/-- The ways through a routine, whatever they meet: after that many steps, control is at an
instruction with that many operands on the stack. A way ends at a `return`, and at a call of a
routine whose arity is not known. -/
inductive Route (r : Routine) (arities : Table Nat) : Nat → Nat → Int → Prop where
  | start : Route r arities 0 0 r.arity
  | step {k pc q pops pushes : Nat} {n : Int} {i : Instruction} (h : Route r arities k pc n)
      (hi : r.code[pc]? = some i) (he : i.effect? arities.get? = some (pops, pushes))
      (hq : ((∀ t, i ≠ .jump t) ∧ i ≠ .ret) ∧ q = pc + 1 ∨ i = .jump q ∨ i = .jumpIfFalse q) :
      Route r arities (k + 1) q (n - pops + pushes)

/-- What is asked of an instruction that is met with `n` operands. -/
structure Allows (size : Nat) (arities : Table Nat) (i : Instruction) (n : Int) : Prop where
  slot : ∀ s, i = .load s ∨ i = .store s → s < maxLocals
  callee : ∀ name, i = .call name → ∃ arity, arities.get? name = some arity
  enough : ∀ pops pushes, i.effect? arities.get? = some (pops, pushes) → pops ≤ n
  target : ∀ t, i = .jump t ∨ i = .jumpIfFalse t → t < size
  ret : i = .ret → n = 1

/-- All ways through a routine stay inside it and do what is allowed, and they agree on the number
of operands at each instruction. -/
structure Safe (r : Routine) (arities : Table Nat) : Prop where
  allows : ∀ k pc n, Route r arities k pc n →
    ∃ i, r.code[pc]? = some i ∧ Allows r.code.size arities i n
  agree : ∀ k k' pc n n', Route r arities k pc n → Route r arities k' pc n' → n = n'

/-- The arities and the size of the routine are far from the end of the range of depths. -/
structure Ordinary (r : Routine) (arities : Table Nat) : Prop where
  arity : r.arity < 2 ^ 62
  arities : ∀ name n, arities.get? name = some n → n < 2 ^ 62
  size : r.code.size < 2 ^ 62

variable {r : Routine} {arities : Table Nat} {size k pc pops pushes : Nat} {i : Instruction}
  {d : Int64} {n : Int}

theorem Allows.exists_effect (h : Allows size arities i n) :
    ∃ pops pushes, i.effect? arities.get? = some (pops, pushes) := by
  cases i with
  | call name =>
    obtain ⟨arity, ha⟩ := h.callee name rfl
    exact ⟨arity, 1, by simp [Instruction.effect?, ha]⟩
  | _ => exact ⟨_, _, rfl⟩

/-- What is allowed is what the check admits, as long as depths are true numbers of operands. -/
theorem admits_iff (hall : ∀ name n, arities.get? name = some n → n < 2 ^ 62)
    (he : i.effect? arities.get? = some (pops, pushes)) :
    Admits size arities i d pops pushes ↔ Allows size arities i d.toInt := by
  constructor
  · intro h
    refine ⟨fun s hi => h.slot s (Instruction.slot?_eq_some_iff.mpr hi), ?_, ?_,
      fun t hi => h.target t (Instruction.target?_eq_some_iff.mpr hi), ?_⟩
    · rintro name rfl
      cases ha : arities.get? name with
      | none => simp [Instruction.effect?, ha] at he
      | some arity => exact ⟨arity, rfl⟩
    · intro pops' pushes' he'
      obtain ⟨rfl, rfl⟩ := Prod.mk.inj (Option.some.inj (he.symm.trans he'))
      exact h.pops_le hall
    · intro hi
      rw [h.ret hi]
      rfl
  · intro h
    have hpops := h.enough pops pushes he
    have hlt : pops < 2 ^ 63 := by
      have := d.toInt_lt
      omega
    refine ⟨fun s hs => h.slot s (Instruction.slot?_eq_some_iff.mp hs), he, ?_, ?_,
      fun t ht => h.target t (Instruction.target?_eq_some_iff.mp ht)⟩
    · rw [Int64.lt_iff_toInt_lt, Int64.toInt_ofNat_of_lt hlt]
      omega
    · intro hi
      exact Int64.toInt_inj.mp (h.ret hi)

/-! ## Accepted routines -/

/-- In an accepted routine, the number of operands on any way is the label of the instruction that
it has come to. -/
theorem Route.labelled {depth : Nat → Option Int64} (ho : Ordinary r arities)
    (hl : r.Labelling arities depth)
    (hpath : ∀ pc d, depth pc = some d → ∃ k < r.code.size, Path r arities k pc d)
    (h : Route r arities k pc n) : ∃ d, depth pc = some d ∧ d.toInt = n := by
  induction h with
  | start => exact ⟨_, hl.start, Int64.toInt_ofNat_of_lt (by have := ho.arity; omega)⟩
  | @step k pc q pops pushes n i _ hi he hq ih =>
    obtain ⟨d, hd, rfl⟩ := ih
    obtain ⟨pops', pushes', ha, hfall, htarget⟩ := hl.admits hd hi
    obtain ⟨rfl, rfl⟩ := Prod.mk.inj (Option.some.inj (he.symm.trans ha.effect))
    refine ⟨d - Int64.ofNat pops + Int64.ofNat pushes, ?_, ?_⟩
    · obtain ⟨hf, rfl⟩ | ht := Instruction.leads_iff.mpr hq
      · exact hfall hf
      · exact htarget q ht
    · -- The label belongs to a short way, so its depth is too small to wrap around.
      obtain ⟨j, hj, hp⟩ := hpath pc d hd
      have hbound := hp.depth_le ho.arity ho.arities (Nat.lt_trans hj ho.size)
      have harity := ho.arity
      have hsize := ho.size
      exact toInt_after (by omega) (ha.pops_le ho.arities) (Instruction.effect?_bounds he).1

theorem safe_of_checkBalance (ho : Ordinary r arities) (hok : r.checkBalance arities = .ok ()) :
    Safe r arities := by
  obtain ⟨depth, hl, hpath⟩ := exists_labelling hok
  constructor
  · intro k pc n h
    obtain ⟨d, hd, rfl⟩ := h.labelled ho hl hpath
    have hlt := hl.lt_size hd
    have hi : r.code[pc]? = some r.code[pc] := Array.getElem?_eq_getElem hlt
    obtain ⟨_, _, ha, _⟩ := hl.admits hd hi
    exact ⟨_, hi, (admits_iff ho.arities ha.effect).mp ha⟩
  · intro k k' pc n n' h h'
    obtain ⟨d, hd, rfl⟩ := h.labelled ho hl hpath
    obtain ⟨d', hd', rfl⟩ := h'.labelled ho hl hpath
    rw [hd, Option.some.injEq] at hd'
    rw [hd']

/-! ## Safe routines -/

theorem Safe.bounds (hs : Safe r arities) (h : Route r arities k pc n) :
    0 ≤ n ∧ n ≤ r.arity + k := by
  induction h with
  | start => omega
  | @step k pc q pops pushes n i hroute hi he _ ih =>
    obtain ⟨i', hi', ha⟩ := hs.allows k pc n hroute
    obtain rfl := Option.some.inj (hi.symm.trans hi')
    have hpops := ha.enough pops pushes he
    have hpushes := (Instruction.effect?_bounds he).1
    omega

/-- The depth `d` is the number of operands on a way of at most `bound` steps to `pc`. -/
def Measures (r : Routine) (arities : Table Nat) (bound pc : Nat) (d : Int64) : Prop :=
  ∃ k ≤ bound, Route r arities k pc d.toInt

theorem Measures.mono {b b' : Nat} (h : Measures r arities b pc d) (hb : b ≤ b') :
    Measures r arities b' pc d := by
  obtain ⟨k, hk, hroute⟩ := h
  exact ⟨k, Nat.le_trans hk hb, hroute⟩

theorem Safe.successors (ho : Ordinary r arities) (hs : Safe r arities) {bound : Nat}
    (hb : bound < r.code.size) (hm : Measures r arities bound pc d) :
    ∃ (hpc : pc < r.code.size) (next : List (Nat × Int64)),
      successors r.code.size arities pc r.code[pc] d = .ok next ∧
        ∀ q e, (q, e) ∈ next → Measures r arities (bound + 1) q e := by
  obtain ⟨k, hk, hroute⟩ := hm
  obtain ⟨i, hi, ha⟩ := hs.allows k pc _ hroute
  obtain ⟨hpc, rfl⟩ := Array.getElem?_eq_some_iff.mp hi
  obtain ⟨pops, pushes, he⟩ := ha.exists_effect
  have hadmits := (admits_iff ho.arities he).mpr ha
  obtain ⟨next, hnext⟩ :
      ∃ next, Routine.successors r.code.size arities pc r.code[pc] d = .ok next :=
    ⟨_, successors_eq_ok_iff.mpr ⟨pops, pushes, hadmits, rfl⟩⟩
  refine ⟨hpc, next, hnext, ?_⟩
  intro q e hq
  have hbounds := hs.bounds hroute
  have harity := ho.arity
  have hsize := ho.size
  have hafter : (d - Int64.ofNat pops + Int64.ofNat pushes).toInt = d.toInt - pops + pushes :=
    toInt_after (by omega) (hadmits.pops_le ho.arities) (Instruction.effect?_bounds he).1
  obtain ⟨pops', pushes', hadmits', hedge, rfl⟩ := mem_successors hnext hq
  obtain ⟨rfl, rfl⟩ := Prod.mk.inj (Option.some.inj (hadmits.effect.symm.trans hadmits'.effect))
  refine ⟨k + 1, by omega, ?_⟩
  rw [hafter]
  exact .step hroute hi he (Instruction.leads_iff.mp hedge)

theorem Safe.explore (ho : Ordinary r arities) (hs : Safe r arities)
    (seen : Vector (Option Int64) r.code.size) (work : List (Nat × Int64))
    (hseen : ∀ pc d (h : pc < r.code.size), seen[pc] = some d →
      Measures r arities (seen.countP Option.isSome) pc d)
    (hwork : ∀ pc d, (pc, d) ∈ work → Measures r arities (seen.countP Option.isSome) pc d) :
    r.explore arities seen work = .ok () := by
  fun_induction Routine.explore r arities seen work with
  | case1 => rfl
  | case2 seen pc rest h d hd ih => exact ih hseen fun q e hq => hwork q e (.tail _ hq)
  | case3 seen pc d rest h d' hd hne =>
    obtain ⟨k, _, hroute⟩ := hwork pc d (.head _)
    obtain ⟨k', _, hroute'⟩ := hseen pc d' h hd
    exact absurd (Int64.toInt_inj.mp (hs.agree k' k pc _ _ hroute' hroute)) hne
  | case4 seen pc d rest h hd e he =>
    have hlt := countP_isSome_lt seen h hd
    obtain ⟨_, next, hn, _⟩ := hs.successors ho hlt (hwork pc d (.head _))
    rw [he] at hn
    cases hn
  | case5 seen pc d rest h hd next hn ih =>
    have hlt := countP_isSome_lt seen h hd
    have hcount := countP_isSome_set seen h hd d
    have hmeasures := hwork pc d (.head _)
    obtain ⟨_, next', hn', hnext⟩ := hs.successors ho hlt hmeasures
    obtain rfl := Except.ok.inj (hn.symm.trans hn')
    apply ih
    · intro q e hq hset
      rw [Vector.getElem_set] at hset
      split at hset
      next heq =>
        subst heq
        obtain rfl := Option.some.inj hset
        exact hmeasures.mono (by omega)
      next => exact (hseen q e hq hset).mono (by omega)
    · intro q e hq
      rw [hcount]
      rcases List.mem_append.mp hq with hq | hq
      · exact hnext q e hq
      · exact (hwork q e (.tail _ hq)).mono (by omega)
  | case6 seen pc d rest h =>
    obtain ⟨k, _, hroute⟩ := hwork pc d (.head _)
    obtain ⟨i, hi, _⟩ := hs.allows k pc _ hroute
    exact absurd (Array.getElem?_eq_some_iff.mp hi).1 h

theorem Safe.checkBalance (ho : Ordinary r arities) (hs : Safe r arities) :
    r.checkBalance arities = .ok () := by
  apply hs.explore ho
  · intro pc d h hd
    simp at hd
  · intro pc d hw
    simp only [List.mem_singleton, Prod.mk.injEq] at hw
    obtain ⟨rfl, rfl⟩ := hw
    refine ⟨0, Nat.zero_le _, ?_⟩
    rw [Int64.toInt_ofNat_of_lt (by have := ho.arity; omega)]
    exact .start

/-! ## The number of turns -/

/-- The search of the check in at most that many turns, each of which takes one place from the list
of pending places. -/
def exploreFor (r : Routine) (arities : Table Nat) :
    Nat → Vector (Option Int64) r.code.size → List (Nat × Int64) → Option (Except BalanceError Unit)
  | _, _, [] => some (.ok ())
  | 0, _, _ :: _ => none
  | turns + 1, seen, (pc, depth) :: rest =>
    if h : pc < r.code.size then
      match seen[pc] with
      | some d =>
        if d = depth then r.exploreFor arities turns seen rest
        else some (.error ⟨r.name, pc, .join d depth⟩)
      | none =>
        match successors r.code.size arities pc r.code[pc] depth with
        | .error e => some (.error ⟨r.name, pc, e⟩)
        | .ok next => r.exploreFor arities turns (seen.set pc (some depth)) (next ++ rest)
    else some (.error ⟨r.name, pc, .runsOff⟩)

theorem length_successors {next : List (Nat × Int64)}
    (h : successors size arities pc i d = .ok next) :
    next.length ≤ 2 := by
  obtain ⟨pops, pushes, _, rfl⟩ := successors_eq_ok_iff.mp h
  rw [List.length_append, List.length_map, List.length_map]
  have hbehind : (if i.fallsThrough then [pc + 1] else []).length ≤ 1 := by split <;> simp
  have htarget : i.target?.toList.length ≤ 1 := by cases i.target? <;> simp
  omega

theorem exists_turn {unseen turns : Nat} {place : Nat × Int64} {rest : List (Nat × Int64)}
    (h : 2 * unseen + (place :: rest).length ≤ turns) :
    ∃ left, turns = left + 1 ∧ 2 * unseen + rest.length ≤ left := by
  rw [List.length_cons] at h
  exact ⟨turns - 1, by omega, by omega⟩

/-- The search ends: each instruction that has not been reached yet adds at most two turns. -/
theorem exploreFor_eq {turns : Nat} (seen : Vector (Option Int64) r.code.size)
    (work : List (Nat × Int64)) (hturns : 2 * seen.countP Option.isNone + work.length ≤ turns) :
    r.exploreFor arities turns seen work = some (r.explore arities seen work) := by
  fun_induction explore r arities seen work generalizing turns with
  | case1 => rw [exploreFor]
  | case2 seen pc rest h d hd ih =>
    obtain ⟨left, rfl, hleft⟩ := exists_turn hturns
    simp only [exploreFor, h, hd, dif_pos, if_true]
    exact ih hleft
  | case3 seen pc d rest h d' hd hne =>
    obtain ⟨left, rfl, _⟩ := exists_turn hturns
    simp [exploreFor, h, hd, hne]
  | case4 seen pc d rest h hd e he =>
    obtain ⟨left, rfl, _⟩ := exists_turn hturns
    simp [exploreFor, h, hd, he]
  | case5 seen pc d rest h hd next hn ih =>
    obtain ⟨left, rfl, hleft⟩ := exists_turn hturns
    simp only [exploreFor, h, hd, hn, dif_pos]
    have hlt := countP_set_lt seen h hd d
    have hlen := length_successors hn
    apply ih
    rw [List.length_append]
    omega
  | case6 seen pc d rest h =>
    obtain ⟨left, rfl, _⟩ := exists_turn hturns
    simp [exploreFor, h]

/-- The check accepts a routine of ordinary size exactly if all ways through it are safe, and it
comes to its result in at most two turns for each instruction and one more. -/
theorem balance_check_is_exact_and_ends (r : Routine) (arities : Table Nat)
    (harity : r.arity < 2 ^ 62) (harities : ∀ name n, arities.get? name = some n → n < 2 ^ 62)
    (hsize : r.code.size < 2 ^ 62) :
    (r.checkBalance arities = .ok () ↔ Safe r arities) ∧
      r.exploreFor arities (2 * r.code.size + 1) (Vector.replicate r.code.size none)
        [(0, Int64.ofNat r.arity)] = some (r.checkBalance arities) := by
  have ho : Ordinary r arities := ⟨harity, harities, hsize⟩
  refine ⟨⟨safe_of_checkBalance ho, fun hs => hs.checkBalance ho⟩, ?_⟩
  apply exploreFor_eq
  rw [Vector.countP_replicate]
  simp

/-- A loop that is entered at two instructions and calls the routine itself. -/
def twoEntries : Routine :=
  ⟨"f", 1, #[.store 0, .load 0, .jumpIfFalse 4, .nop, .load 0, .call "f", .jumpIfFalse 3,
    .push .nil, .ret]⟩

theorem ways_through_two_entries_are_safe :
    twoEntries.checkBalance [("f", 1)] = .ok () ∧ Safe twoEntries [("f", 1)] := by
  have hok : twoEntries.checkBalance [("f", 1)] = .ok () := by decide +kernel
  have hsmall : ∀ name n, Table.get? [("f", 1)] name = some n → n < 2 ^ 62 := by
    intro name n h
    rw [Table.get?_cons, Table.get?_nil] at h
    split at h <;> cases h
    decide
  exact ⟨hok, (balance_check_is_exact_and_ends twoEntries [("f", 1)] (by decide) hsmall
    (by decide)).1.mp hok⟩

end Routine

end RecordLang

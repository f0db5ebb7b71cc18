import RecordLang.Proofs.Balance.Routes

/-! # Depths in words

The check counts operands in signed words of 64 bits. It is right up to multiples of `2 ^ 64`, and
right altogether as long as no arity and no depth that the code could build up is beyond the words.
Where an arity is beyond them, the check takes it for a negative number, and can accept code that
runs short of operands.
-/

namespace RecordLang.Routine

/-- The states that the check of a routine comes through: the depths that have been seen, and the
places that are pending. -/
inductive Searching (r : Routine) (arities : Table Nat) :
    Vector (Option Int64) r.code.size → List (Nat × Int64) → Prop where
  | start : Searching r arities (Vector.replicate r.code.size none) [(0, Int64.ofNat r.arity)]
  | again {seen : Vector (Option Int64) r.code.size} {pc : Nat} {d : Int64}
      {rest : List (Nat × Int64)} (h : Searching r arities seen ((pc, d) :: rest))
      (hpc : pc < r.code.size) (hs : seen[pc] = some d) : Searching r arities seen rest
  | follow {seen : Vector (Option Int64) r.code.size} {pc : Nat} {d : Int64}
      {rest next : List (Nat × Int64)} (h : Searching r arities seen ((pc, d) :: rest))
      (hpc : pc < r.code.size) (hs : seen[pc] = none)
      (hn : successors r.code.size arities pc r.code[pc] d = .ok next) :
      Searching r arities (seen.set pc (some d)) (next ++ rest)

def TrueDepth (r : Routine) (arities : Table Nat) (pc : Nat) (d : Int64) : Prop :=
  0 ≤ d.toInt ∧ ∃ k, Route r arities k pc d.toInt

/-- The words in which the effect of the instruction `i` at the depth `d` is worked out stand for
the numbers that are meant: how many operands it takes, and, if the check finds that there are
enough, what is left when they are taken and what is there in the end. -/
def ExactAt (arities : Table Nat) (i : Instruction) (d : Int64) : Prop :=
  ∀ pops pushes, i.effect? arities.get? = some (pops, pushes) →
    (Int64.ofNat pops).toInt = pops ∧
      (¬ d < Int64.ofNat pops → (d - Int64.ofNat pops).toInt = d.toInt - pops ∧
        (d - Int64.ofNat pops + Int64.ofNat pushes).toInt = d.toInt - pops + pushes)

structure Truthful (r : Routine) (arities : Table Nat) : Prop where
  arity : (Int64.ofNat r.arity).toInt = r.arity
  depths : ∀ seen work, Searching r arities seen work → ∀ pc d, (pc, d) ∈ work →
    TrueDepth r arities pc d
  effects : ∀ seen pc d rest (hpc : pc < r.code.size),
    Searching r arities seen ((pc, d) :: rest) → seen[pc] = none → ExactAt arities r.code[pc] d

variable {r : Routine} {arities : Table Nat} {seen : Vector (Option Int64) r.code.size}
  {work : List (Nat × Int64)} {pc : Nat} {d : Int64}

theorem Searching.explore_eq (h : Searching r arities seen work) :
    r.explore arities seen work = r.checkBalance arities := by
  induction h with
  | start => rfl
  | again _ hpc hs ih =>
    rw [← ih]
    conv_rhs => rw [explore, dif_pos hpc]
    split
    next d hd =>
      obtain rfl := Option.some.inj (hd.symm.trans hs)
      rw [if_pos rfl]
    next hd => cases hd.symm.trans hs
  | follow _ hpc hs hn ih =>
    rw [← ih]
    conv_rhs => rw [explore, dif_pos hpc]
    split
    next d hd => cases hd.symm.trans hs
    next => rw [hn]

/-- Every pending depth is the number of operands on some way, up to a multiple of `2 ^ 64`. -/
theorem Searching.exists_route (h : Searching r arities seen work) (hw : (pc, d) ∈ work) :
    ∃ k n, Route r arities k pc n ∧ d = Int64.ofInt n := by
  induction h generalizing pc d with
  | start =>
    obtain ⟨rfl, rfl⟩ := Prod.mk.inj (List.mem_singleton.mp hw)
    exact ⟨0, _, .start, Int64.ofInt_eq_ofNat.symm⟩
  | again _ _ _ ih => exact ih (.tail _ hw)
  | @follow seen p dp rest next _ hpc hs hn ih =>
    rcases List.mem_append.mp hw with hw | hw
    · obtain ⟨k, n, hroute, rfl⟩ := ih (.head _)
      obtain ⟨pops, pushes, ha, hedge, rfl⟩ := mem_successors hn hw
      refine ⟨k + 1, _, .step hroute (Array.getElem?_eq_getElem hpc) ha.effect
        (Instruction.leads_iff.mp hedge), ?_⟩
      rw [Int64.ofInt_add, Int64.ofInt_sub, Int64.ofInt_eq_ofNat, Int64.ofInt_eq_ofNat]
    · exact ih (.tail _ hw)

/-! ## Within the range -/

/-- The arities of the routine and of those it calls are below the end of the range, and the code is
too short for depths to get there. -/
structure InRange (r : Routine) (arities : Table Nat) : Prop where
  depths : r.arity + r.code.size < 2 ^ 63
  arities : 0 < r.code.size → ∀ name n, arities.get? name = some n → n < 2 ^ 63

theorem InRange.pops_lt (hr : InRange r arities) (hpc : pc < r.code.size) {i : Instruction}
    {pops pushes : Nat} (he : i.effect? arities.get? = some (pops, pushes)) : pops < 2 ^ 63 := by
  rcases (Instruction.effect?_bounds he).2 with h | ⟨name, h⟩
  · omega
  · exact hr.arities (Nat.zero_lt_of_lt hpc) name pops h

/-- Within the range, pending depths are true, and have grown by at most one for each instruction
that has been seen. -/
theorem Searching.trueDepth (hr : InRange r arities) (h : Searching r arities seen work)
    (hw : (pc, d) ∈ work) :
    TrueDepth r arities pc d ∧ d.toInt ≤ r.arity + seen.countP Option.isSome := by
  have hdepths := hr.depths
  induction h generalizing pc d with
  | start =>
    obtain ⟨rfl, rfl⟩ := Prod.mk.inj (List.mem_singleton.mp hw)
    rw [TrueDepth, Int64.toInt_ofNat_of_lt (by omega)]
    exact ⟨⟨by omega, 0, .start⟩, by omega⟩
  | again _ _ _ ih => exact ih (.tail _ hw)
  | @follow seen p dp rest next _ hpc hs hn ih =>
    rw [countP_isSome_set seen hpc hs]
    rcases List.mem_append.mp hw with hw | hw
    · obtain ⟨⟨_, k, hroute⟩, hle⟩ := ih (.head _)
      obtain ⟨pops, pushes, ha, hedge, rfl⟩ := mem_successors hn hw
      have hlt := countP_isSome_lt seen hpc hs
      have hpops := ha.pops_le_of_lt (hr.pops_lt hpc ha.effect)
      have hpushes := (Instruction.effect?_bounds ha.effect).1
      rw [TrueDepth, toInt_after (by omega) hpops hpushes]
      exact ⟨⟨by omega, k + 1, .step hroute (Array.getElem?_eq_getElem hpc) ha.effect
        (Instruction.leads_iff.mp hedge)⟩, by omega⟩
    · obtain ⟨htrue, hle⟩ := ih (.tail _ hw)
      exact ⟨htrue, by omega⟩

theorem exactAt {i : Instruction} (hd : d.toInt < 2 ^ 63 - 1)
    (hpops : ∀ pops pushes, i.effect? arities.get? = some (pops, pushes) → pops < 2 ^ 63) :
    ExactAt arities i d := by
  intro pops pushes he
  have hneeds := Int64.toInt_ofNat_of_lt (hpops pops pushes he)
  refine ⟨hneeds, ?_⟩
  intro henough
  rw [Int64.lt_iff_toInt_lt, hneeds, Int.not_lt] at henough
  constructor
  · rw [Int64.toInt_sub, hneeds]
    exact Int.bmod_eq_of_le (by omega) (by omega)
  · exact toInt_after hd henough (Instruction.effect?_bounds he).1

theorem InRange.truthful (hr : InRange r arities) : Truthful r arities where
  arity := Int64.toInt_ofNat_of_lt (by have := hr.depths; omega)
  depths := fun _ _ h _ _ hw => (h.trueDepth hr hw).1
  effects := by
    intro seen pc d rest hpc h hs
    obtain ⟨_, hle⟩ := h.trueDepth hr (.head _)
    have hlt := countP_isSome_lt seen hpc hs
    have hdepths := hr.depths
    exact exactAt (by omega) fun _ _ he => hr.pops_lt hpc he

/-! ## Beyond the range -/

def repeating (arity size : Nat) (i : Instruction) : Routine := ⟨"", arity, Array.replicate size i⟩

theorem repeating_getElem? {arity size : Nat} {i j : Instruction}
    (h : (repeating arity size i).code[pc]? = some j) : j = i := by
  rw [repeating, Array.getElem?_replicate] at h
  split at h <;> cases h
  rfl

theorem route_pushing {arity size k : Nat} {v : Value} {n : Int}
    (h : Route (repeating arity size (.push v)) arities k pc n) : pc = k ∧ n = arity + k := by
  induction h with
  | start => exact ⟨rfl, by simp [repeating]⟩
  | @step k pc q pops pushes n i _ hi he hq ih =>
    obtain rfl := repeating_getElem? hi
    cases he
    obtain ⟨rfl, rfl⟩ := ih
    obtain ⟨_, rfl⟩ | ⟨⟨⟩⟩ | ⟨⟨⟩⟩ := hq
    exact ⟨rfl, by omega⟩

theorem searching_pushing (arities : Table Nat) {arity size k : Nat} (v : Value) (hk : k ≤ size)
    (hrange : arity + k ≤ 2 ^ 63) :
    ∃ seen, Searching (repeating arity size (.push v)) arities seen
        [(k, Int64.ofNat (arity + k))] ∧
      ∀ q (hq : q < (repeating arity size (.push v)).code.size), k ≤ q → seen[q] = none := by
  induction k with
  | zero => exact ⟨_, .start, by simp⟩
  | succ k ih =>
    obtain ⟨seen, h, hseen⟩ := ih (by omega) (by omega)
    have hlt : k < (repeating arity size (.push v)).code.size := by
      rw [repeating, Array.size_replicate]
      exact hk
    have hcode : (repeating arity size (.push v)).code[k] = .push v :=
      repeating_getElem? (Array.getElem?_eq_getElem hlt)
    have hafter : Int64.ofNat (arity + k) - Int64.ofNat 0 + Int64.ofNat 1 =
        Int64.ofNat (arity + (k + 1)) := by
      simp only [← Int64.ofInt_eq_ofNat, ← Int64.ofInt_sub, ← Int64.ofInt_add]
      congr 1
    have henough : ¬ Int64.ofNat (arity + k) < Int64.ofNat 0 := by
      rw [Int64.lt_iff_toInt_lt, Int64.toInt_ofNat_of_lt (by omega),
        Int64.toInt_ofNat_of_lt (by omega)]
      omega
    have hnext : successors (repeating arity size (.push v)).code.size arities k
        (repeating arity size (.push v)).code[k] (Int64.ofNat (arity + k)) =
          .ok [(k + 1, Int64.ofNat (arity + (k + 1)))] := by
      rw [hcode]
      exact successors_eq_ok_iff.mpr ⟨0, 1, ⟨nofun, rfl, henough, nofun, nofun⟩, by
        rw [hafter]
        rfl⟩
    refine ⟨_, h.follow hlt (hseen k hlt (Nat.le_refl k)) hnext, ?_⟩
    intro q hq hle
    rw [Vector.getElem_set_ne _ _ (by omega)]
    exact hseen q hq (by omega)

theorem lt_of_toInt_ofNat {n : Nat} (h : (Int64.ofNat n).toInt = n) : n < 2 ^ 63 := by
  have := (Int64.ofNat n).toInt_lt
  omega

theorem add_size_lt {arity size : Nat}
    (h : ∀ r : Routine, r.arity = arity → r.code.size = size → Truthful r arities) :
    arity + size < 2 ^ 63 := by
  have ht := h (repeating arity size (.push .nil)) rfl (by simp [repeating])
  have harity : arity < 2 ^ 63 := lt_of_toInt_ofNat ht.arity
  by_contra hge
  -- The depth just beyond the range is pending at some time, and is taken for a negative one.
  obtain ⟨k, hk⟩ : ∃ k, arity + k = 2 ^ 63 := ⟨2 ^ 63 - arity, by omega⟩
  have hsize : k ≤ size := by omega
  obtain ⟨seen, hsearch, _⟩ := searching_pushing arities .nil hsize (Nat.le_of_eq hk)
  obtain ⟨_, j, hroute⟩ := ht.depths _ _ hsearch k _ (.head _)
  obtain ⟨rfl, hn⟩ := route_pushing hroute
  have hlt := lt_of_toInt_ofNat (n := arity + k) (by rw [hn]; omega)
  omega

theorem arity_lt {arity size : Nat} (hsize : 0 < size)
    (h : ∀ r : Routine, r.arity = arity → r.code.size = size → Truthful r arities) {name : String}
    {n : Nat} (hn : arities.get? name = some n) : n < 2 ^ 63 := by
  have ht := h (repeating arity size (.call name)) rfl (by simp [repeating])
  have hlt : 0 < (repeating arity size (.call name)).code.size := by simpa [repeating] using hsize
  have hexact := ht.effects _ 0 _ _ hlt .start (by simp)
  rw [repeating_getElem? (Array.getElem?_eq_getElem hlt)] at hexact
  exact lt_of_toInt_ofNat (hexact n 1 (by simp [Instruction.effect?, hn])).1

/-- Each depth that the check of a routine puts down is, up to a multiple of `2 ^ 64`, the number of
operands on some way through the routine. For the check of all routines with some arity and some
number of instructions to work with true numbers throughout, it is necessary and enough that these
two together are less than `2 ^ 63`, and so is the arity of each routine that could be called. -/
theorem depths_are_true_up_to_the_range (arities : Table Nat) :
    (∀ r seen work, Searching r arities seen work →
      r.explore arities seen work = r.checkBalance arities ∧
        ∀ pc d, (pc, d) ∈ work → ∃ k n, Route r arities k pc n ∧ d = Int64.ofInt n) ∧
    ∀ arity size,
      (∀ r : Routine, r.arity = arity → r.code.size = size → Truthful r arities) ↔
        arity + size < 2 ^ 63 ∧
          (0 < size → ∀ name n, arities.get? name = some n → n < 2 ^ 63) := by
  refine ⟨?_, ?_⟩
  · intro r seen work h
    exact ⟨h.explore_eq, fun pc d hw => h.exists_route hw⟩
  · intro arity size
    refine ⟨?_, ?_⟩
    · intro h
      exact ⟨add_size_lt h, fun hsize name n hn => arity_lt hsize h hn⟩
    · rintro ⟨hdepths, harities⟩ r rfl rfl
      exact InRange.truthful ⟨hdepths, harities⟩

theorem two_entries_are_counted_truly :
    Truthful twoEntries [("f", 1)] ∧
      ∃ k n, Route twoEntries [("f", 1)] k 0 n ∧ Int64.ofNat 1 = Int64.ofInt n := by
  obtain ⟨hsearch, hrange⟩ := depths_are_true_up_to_the_range [("f", 1)]
  have hsmall : ∀ name n, Table.get? [("f", 1)] name = some n → n < 2 ^ 63 := by
    intro name n h
    rw [Table.get?_cons, Table.get?_nil] at h
    split at h <;> cases h
    decide
  exact ⟨(hrange 1 9).mpr ⟨by decide, fun _ => hsmall⟩ twoEntries rfl rfl,
    (hsearch twoEntries _ _ .start).2 0 _ (.head _)⟩

/-- A routine with more arguments than a word can count is called without any, and would call itself
likewise. -/
def countless : Bytecode :=
  [⟨"main", 0, #[.call "f", .pop, .ret]⟩, ⟨"f", 2 ^ 64 - 1, #[.call "f", .ret]⟩]

/-- The check accepts it, though one of the depths that it puts down is negative and the call fails
for want of operands. -/
theorem countless_arguments_pass_the_check :
    countless.checkBalance = .ok () ∧
    (∃ r ∈ countless, ∃ seen work, Searching r (RecordLang.arities countless) seen work ∧
      ∃ pc d, (pc, d) ∈ work ∧ ¬ TrueDepth r (RecordLang.arities countless) pc d) ∧
    ∃ e m, (Machine.fresh {} [] {}).run 1 countless = some (.error e, m) ∧
      e.cause = .stackUnderflow := by
  have hok : countless.checkBalance = .ok () := by decide +kernel
  refine ⟨hok, ?_, ?_⟩
  · refine ⟨_, .tail _ (.head _), _, _, .start, 0, _, .head _, ?_⟩
    rintro ⟨hd, _⟩
    revert hd
    decide
  · have hload : (Machine.fresh {} [] {}).load countless =
        .ok { config := {}, input := [], output := {}, routines := countless.addTo [] } := by
      rw [Machine.load_fresh, hok]
      rfl
    rw [Machine.run, hload]
    exact ⟨_, _, rfl, rfl⟩

end RecordLang.Routine

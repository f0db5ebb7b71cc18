import RecordLang.Proofs.Compile.Enclosure

/-! # Jumps land inside their routine

The code of a function ends with a `return`, whichever way its body ends. So behind each label there
is an instruction, and no jump, not even one that is never reached, leads out of the code.
-/

namespace RecordLang

variable {d : Declarations} {f : FunDecl} {r : Routine} {g g' : Generator} {body : List Directive}

theorem FunDecl.row_enclosed (hok : generateStmts d g f.body = .ok (body, g')) :
    Enclosed [] (f.row body) := by
  have hprologue : JumpFree f.prologue := by
    intro i hi
    obtain ⟨slot, _, rfl⟩ := List.mem_map.mp hi
    rfl
  have hepilogue : JumpFree f.epilogue := by
    unfold FunDecl.epilogue
    split
    next => exact .nil
    next => exact .cons rfl (.cons rfl .nil)
  exact ((Enclosed.emits hprologue).append (generateStmts_enclosed f.body hok)).append
    (.emits hepilogue)

/-- The places that jumps of a function go to are those of labels that stand before its last
instruction. -/
theorem FunDecl.target_lt_size (hr : f.compile d = .ok r) {i : Instruction} (hi : i ∈ r.code)
    {t : Nat} (ht : i.target? = some t) : t < r.code.size := by
  obtain ⟨_, _, body, g, place, hbody, hplaced, hlinked⟩ := FunDecl.compile_eq_ok hr
  obtain ⟨init, hinit⟩ := FunDecl.row_ends hbody
  have hencl := FunDecl.row_enclosed hbody
  rw [hinit] at hplaced hlinked hencl
  rw [← Array.mem_toList_iff, hlinked] at hi
  obtain ⟨l, hl, rfl⟩ := exists_goal_of_target hencl.jumpFree hi ht
  refine hplaced.lt_size hlinked ?_
  rcases hencl.goals l hl with hbound | hout
  · simpa [Directive.bound?] using hbound
  · cases hout

theorem FunDecl.back?_of_compile (hr : f.compile d = .ok r) : r.code.back? = some .ret := by
  obtain ⟨_, _, body, g, place, hbody, _, hlinked⟩ := FunDecl.compile_eq_ok hr
  obtain ⟨init, hinit⟩ := FunDecl.row_ends hbody
  rw [hinit] at hlinked
  exact back?_of_linked hlinked

namespace Program

variable {p : Program} {c : Catalog} {b : Bytecode}

/-- Whatever the tree and the catalog are: if code comes out, then each routine ends with a `return`
and each of its jumps goes to one of its instructions. As code has fewer than `2 ^ 64` of them, no
jump is left without the place of its label. -/
theorem compiled_jumps_land_inside (h : p.compile c = .ok b) :
    ∀ r ∈ b, r.code.back? = some .ret ∧ ∀ i ∈ r.code, ∀ t, i.target? = some t →
      t < r.code.size ∧ (r.code.size < 2 ^ 64 → t ≠ Assembly.unresolved) := by
  intro r hr
  obtain ⟨f, _, hcompile⟩ := exists_of_forall₂ (mapM_eq_ok.mp h).flip hr
  refine ⟨FunDecl.back?_of_compile hcompile, ?_⟩
  intro i hi t ht
  have hlt := FunDecl.target_lt_size hcompile hi ht
  refine ⟨hlt, ?_⟩
  intro hsize
  simp only [Assembly.unresolved, UInt64.size]
  omega

/-- No program to pass the check: there is no `main`, tests are no Booleans, and a function that is
called is not there. Loops and branches are empty or end with a `return`. -/
def careless : Program where
  records := []
  funs :=
    [⟨⟨.int, default⟩, name "f", [⟨⟨.int, default⟩, name "n"⟩],
      [.loop (pathExpr ["n"]) [],
        .cond (.branch (callExpr "g" []) [] (.branch (pathExpr ["n"]) [.ret none default] .done)),
        .count (name "i") (intExpr 1) .upto (pathExpr ["n"]) [.ret (some (pathExpr ["i"])) default],
        .cond (.branch (pathExpr ["n"]) [] .done)]⟩]

theorem careless_jumps_land_inside :
    ∃ r, (∃ e, careless.check = .error e) ∧ careless.compile .empty = .ok [r] ∧
      r.code.toList.filterMap Instruction.target? = [4, 1, 7, 11, 11, 24, 13, 26] ∧
      r.code.back? = some .ret ∧ ∀ i ∈ r.code, ∀ t, i.target? = some t → t < r.code.size := by
  obtain ⟨r, hr, htargets⟩ : ∃ r, careless.compile .empty = .ok [r] ∧
      r.code.toList.filterMap Instruction.target? = [4, 1, 7, 11, 11, 24, 13, 26] :=
    ⟨_, rfl, rfl⟩
  obtain ⟨hlast, hjumps⟩ := compiled_jumps_land_inside hr r (.head _)
  exact ⟨r, ⟨_, rfl⟩, hr, htargets, hlast, fun i hi t ht => (hjumps i hi t ht).1⟩

end Program

end RecordLang

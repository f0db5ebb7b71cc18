import RecordLang.Proofs.Compile.Programs

/-! # Dead code

What follows a `return` in the same row of statements is neither checked nor compiled, at any depth
of nesting. Programs that differ there only have the same catalog and the same code, or the same
errors.
-/

namespace RecordLang

/-! ## Programs that differ in dead code -/

mutual

/-- The statements are the same but for what follows a `return` somewhere inside. -/
inductive Stmt.SameLive : Stmt → Stmt → Prop where
  | same (s : Stmt) : Stmt.SameLive s s
  | cond {branches branches' : Branches} (h : Branches.SameLive branches branches') :
      Stmt.SameLive (.cond branches) (.cond branches')
  | loop {test : Expr} {body body' : List Stmt} (h : SameLiveStmts body body') :
      Stmt.SameLive (.loop test body) (.loop test body')
  | count {var : Ident} {start stop : Expr} {direction : Direction} {body body' : List Stmt}
      (h : SameLiveStmts body body') :
      Stmt.SameLive (.count var start direction stop body) (.count var start direction stop body')

inductive SameLiveStmts : List Stmt → List Stmt → Prop where
  | nil : SameLiveStmts [] []
  | cons {s s' : Stmt} {rest rest' : List Stmt} (hs : s.SameLive s')
      (h : SameLiveStmts rest rest') : SameLiveStmts (s :: rest) (s' :: rest')
  | dead {s : Stmt} (hs : s.isReturn = true) (rest rest' : List Stmt) :
      SameLiveStmts (s :: rest) (s :: rest')

inductive Branches.SameLive : Branches → Branches → Prop where
  | done : Branches.SameLive .done .done
  | otherwise {body body' : List Stmt} (h : SameLiveStmts body body') :
      Branches.SameLive (.otherwise body) (.otherwise body')
  | branch {test : Expr} {body body' : List Stmt} {rest rest' : Branches}
      (h : SameLiveStmts body body') (hrest : Branches.SameLive rest rest') :
      Branches.SameLive (.branch test body rest) (.branch test body' rest')

end

structure FunDecl.SameLive (f f' : FunDecl) : Prop where
  ret : f'.ret = f.ret
  name : f'.name = f.name
  params : f'.params = f.params
  body : SameLiveStmts f.body f'.body

structure Program.SameLive (p p' : Program) : Prop where
  records : p'.records = p.records
  funs : List.Forall₂ FunDecl.SameLive p.funs p'.funs

theorem Stmt.SameLive.isReturn {s s' : Stmt} (h : s.SameLive s') : s'.isReturn = s.isReturn := by
  cases h <;> rfl

theorem SameLiveStmts.any_isReturn {ss ss' : List Stmt} (h : SameLiveStmts ss ss') :
    ss'.any Stmt.isReturn = ss.any Stmt.isReturn := by
  match h with
  | .nil => rfl
  | .cons hs h => rw [List.any_cons, List.any_cons, hs.isReturn, h.any_isReturn]
  | .dead hs rest rest' => rw [List.any_cons, List.any_cons, hs, Bool.true_or, Bool.true_or]

/-! ## Checking -/

section Checking

variable {c : Catalog} {ret : Ty}

mutual

theorem Stmt.check_sameLive (s : Stmt) {s' : Stmt} (h : s.SameLive s') (Γ : Scopes Meaning) :
    s'.check c ret Γ = s.check c ret Γ := by
  match s, h with
  | _, .same _ => rfl
  | .cond branches, .cond h => rw [Stmt.check, Stmt.check, branches.check_sameLive h]
  | .loop test body, .loop h => rw [Stmt.check, Stmt.check, checkStmts_sameLive body h]
  | .count var start direction stop body, .count h =>
    rw [Stmt.check, Stmt.check, checkStmts_sameLive body h]

theorem checkStmts_sameLive (ss : List Stmt) {ss' : List Stmt} (h : SameLiveStmts ss ss')
    (Γ : Scopes Meaning) : checkStmts c ret Γ ss' = checkStmts c ret Γ ss := by
  match ss, h with
  | [], .nil => rfl
  | s :: rest, .cons hs h =>
    simp only [checkStmts, s.check_sameLive hs, hs.isReturn, checkStmts_sameLive rest h]
  | s :: _, .dead hs rest rest' => simp only [checkStmts, hs, if_true]

theorem Branches.check_sameLive (bs : Branches) {bs' : Branches} (h : bs.SameLive bs')
    (Γ : Scopes Meaning) : bs'.check c ret Γ = bs.check c ret Γ := by
  match bs, h with
  | .done, .done => rfl
  | .otherwise body, .otherwise h => exact checkStmts_sameLive body h Γ.push
  | .branch test body rest, .branch h hrest =>
    rw [Branches.check, Branches.check, checkStmts_sameLive body h, rest.check_sameLive hrest]

end

end Checking

/-! ## Code -/

section Code

variable {d : Declarations}

mutual

theorem Stmt.generate_sameLive (s : Stmt) {s' : Stmt} (h : s.SameLive s') (g : Generator) :
    s'.generate d g = s.generate d g := by
  match s, h with
  | _, .same _ => rfl
  | .cond branches, .cond h => rw [Stmt.generate, Stmt.generate, branches.generate_sameLive h]
  | .loop test body, .loop h => simp only [Stmt.generate, generateStmts_sameLive body h]
  | .count var start direction stop body, .count h =>
    simp only [Stmt.generate, generateStmts_sameLive body h]

theorem generateStmts_sameLive (ss : List Stmt) {ss' : List Stmt} (h : SameLiveStmts ss ss')
    (g : Generator) : generateStmts d g ss' = generateStmts d g ss := by
  match ss, h with
  | [], .nil => rfl
  | s :: rest, .cons hs h =>
    simp only [generateStmts, s.generate_sameLive hs, hs.isReturn, generateStmts_sameLive rest h]
  | s :: _, .dead hs rest rest' => simp only [generateStmts, hs, if_true]

theorem Branches.generate_sameLive (bs : Branches) {bs' : Branches} (h : bs.SameLive bs')
    (done : Nat) (g : Generator) : bs'.generate d done g = bs.generate d done g := by
  match bs, h with
  | .done, .done => rfl
  | .otherwise body, .otherwise h => simp only [Branches.generate, generateStmts_sameLive body h]
  | .branch test body rest, .branch h hrest =>
    simp only [Branches.generate, generateStmts_sameLive body h, rest.generate_sameLive hrest]
    cases hrest <;> rfl

end

end Code

/-! ## Functions and programs -/

namespace FunDecl.SameLive

variable {f f' : FunDecl}

theorem addFun (h : f.SameLive f') :
    (fun c => Catalog.addFun c f') = fun c => Catalog.addFun c f := by
  funext c
  simp only [Catalog.addFun, Catalog.signature, h.ret, h.name, h.params]

theorem check (h : f.SameLive f') (c : Catalog) : f'.check c = f.check c := by
  rw [FunDecl.check, FunDecl.check, FunDecl.scopes, FunDecl.scopes, h.ret, h.params,
    checkStmts_sameLive f.body h.body]

theorem compile (h : f.SameLive f') (d : Declarations) : f'.compile d = f.compile d := by
  simp only [FunDecl.compile, FunDecl.generator, FunDecl.prologue, FunDecl.epilogue, h.name,
    h.params, generateStmts_sameLive f.body h.body, h.body.any_isReturn]

end FunDecl.SameLive

namespace Program

variable {p p' : Program}

theorem findConstruction?_of_records (h : p'.records = p.records) (root : String)
    (fresh : List String) (work : List Ident) :
    p'.findConstruction? root fresh work = p.findConstruction? root fresh work := by
  have hmade (name : String) : p'.constructions name = p.constructions name := by
    rw [constructions, constructions, h]
  fun_induction p.findConstruction? root fresh work with
  | case1 fresh => rw [findConstruction?]
  | case2 fresh target rest hroot => rw [findConstruction?, if_pos hroot]
  | case3 fresh target rest hroot hmem ih =>
    rw [findConstruction?, if_neg hroot, if_pos hmem, hmade, ih]
  | case4 fresh target rest hroot hmem ih =>
    rw [findConstruction?, if_neg hroot, if_neg hmem, ih]

theorem checkConstruction_of_records (h : p'.records = p.records) (d : RecordDecl) :
    p'.checkConstruction d = p.checkConstruction d := by
  simp only [checkConstruction, constructions, findConstruction?_of_records h, h]

namespace SameLive

variable (h : p.SameLive p')
include h

theorem map_eq {β : Type} {g : FunDecl → β} (hg : ∀ f f', FunDecl.SameLive f f' → g f' = g f) :
    p'.funs.map g = p.funs.map g := by
  rw [← List.forall₂_eq_eq_eq, List.forall₂_map_left_iff, List.forall₂_map_right_iff]
  exact h.funs.flip.imp fun f' f hf => hg f f' hf

theorem foldlM_addFun (c : Catalog) :
    p'.funs.foldlM Catalog.addFun c = p.funs.foldlM Catalog.addFun c := by
  have hadd : p'.funs.map (fun f c => Catalog.addFun c f) = p.funs.map fun f c => c.addFun f :=
    h.map_eq fun _ _ hf => hf.addFun
  have hfold := congrArg (List.foldlM (fun c add => add c) c) hadd
  rwa [List.foldlM_map, List.foldlM_map] at hfold

theorem catalog : p'.catalog = p.catalog := by
  simp only [Program.catalog, h.records, h.foldlM_addFun,
    funext (checkConstruction_of_records h.records)]

theorem checkMain (c : Catalog) : p'.checkMain c = p.checkMain c := by
  have hmain : (p'.funs.find? (·.name.text = "main")).map (·.name.pos) =
      (p.funs.find? (·.name.text = "main")).map (·.name.pos) := by
    have hnames : p'.funs.map FunDecl.name = p.funs.map FunDecl.name :=
      h.map_eq fun _ _ hf => hf.name
    have hfind := congrArg (fun names => (names.find? (·.text = "main")).map Ident.pos) hnames
    simp only [List.find?_map, Option.map_map] at hfind
    exact hfind
  rw [Program.checkMain, Program.checkMain, hmain]

end SameLive

/-- What follows a `return` has no influence: programs that differ there only are checked with the
same result and, with any catalog, compiled with the same result, be it an error. -/
theorem dead_code_is_invisible (h : p.SameLive p') :
    p'.check = p.check ∧ ∀ c, p'.compile c = p.compile c := by
  constructor
  · have hfuns (c : Catalog) : p'.funs.forM (FunDecl.check c) = p.funs.forM (FunDecl.check c) := by
      have hchecks := congrArg (List.forM · id) (h.map_eq fun _ _ hf => hf.check c)
      simpa only [List.forM_eq_forM, List.forM_map, id_eq] using hchecks
    simp only [check, h.catalog, h.checkMain, hfuns]
  · intro c
    have hcode := congrArg (List.mapM id) (h.map_eq fun _ _ hf => hf.compile ⟨c, p.records⟩)
    rw [List.mapM_map, List.mapM_map] at hcode
    rwa [compile, compile, h.records]

/-- A function with statements behind each of its two `return`s, of which one ends the body of a
loop inside a conditional. -/
def leaving (dead : List Stmt) : Program where
  records := []
  funs :=
    [⟨⟨.void, default⟩, name "main", [],
      [.declare ⟨name "n", none, intExpr 4⟩,
        .cond (.branch (.chain false (.path [name "n"]) .lt default (intExpr 5) default)
          [.count (name "i") (intExpr 1) .upto (pathExpr ["n"]) (.ret none default :: dead)] .done),
        .ret none default] ++ dead⟩]

theorem leaving_sameLive (dead dead' : List Stmt) : (leaving dead).SameLive (leaving dead') := by
  refine ⟨rfl, .cons ⟨rfl, rfl, rfl, ?_⟩ .nil⟩
  refine .cons (.same _) (.cons (.cond (.branch ?_ .done)) (.dead rfl dead dead'))
  exact .cons (.count (.dead rfl dead dead')) .nil

theorem leaving_hides_its_dead_code :
    let dead :=
      [.declare ⟨name "n", none, intExpr 0⟩, .declare ⟨name "n", none, callExpr "nowhere" []⟩]
    (∃ c b, (leaving dead).check = .ok c ∧ (leaving dead).compile c = .ok b) ∧
      (leaving dead).check = (leaving []).check ∧
      ∀ c, (leaving dead).compile c = (leaving []).compile c := by
  intro dead
  obtain ⟨hcheck, hcompile⟩ := dead_code_is_invisible (leaving_sameLive [] dead)
  refine ⟨?_, hcheck, hcompile⟩
  obtain ⟨c, b, hc, hb⟩ : ∃ c b, (leaving []).check = .ok c ∧ (leaving []).compile c = .ok b :=
    ⟨_, _, rfl, rfl⟩
  exact ⟨c, b, hcheck.trans hc, (hcompile c).trans hb⟩

end Program

end RecordLang

import Mathlib.Data.List.Perm.Basic
import Mathlib.Tactic.Choose
import RecordLang.Proofs.Compile.Programs
import RecordLang.Proofs.Typing.Agreement

/-! # The order of declarations

Declarations are referred to by name, and no two of them share a name. So the order in which a
program declares its records and functions decides neither whether it is accepted, nor what its
catalog holds, nor the code of its functions.
-/

namespace RecordLang

theorem find?_of_perm {α : Type} {name : α → String} {l l' : List α} (hl : (l.map name).Nodup)
    (hp : l.Perm l') (x : String) :
    l'.find? (fun a => name a = x) = l.find? (fun a => name a = x) := by
  cases h : l.find? (fun a => name a = x) with
  | some a =>
    obtain rfl : name a = x := by simpa using List.find?_some h
    have hl' : (l'.map name).Nodup := (hp.map name).nodup_iff.mp hl
    exact find?_of_nodup hl' (hp.mem_iff.mp (List.mem_of_find?_eq_some h))
  | none =>
    rw [List.find?_eq_none] at h ⊢
    intro a ha
    exact h a (hp.mem_iff.mpr ha)

theorem Catalog.AllFree.perm {c : Catalog} {xs ys : List String} (h : c.AllFree xs)
    (hp : xs.Perm ys) : c.AllFree ys :=
  ⟨hp.nodup_iff.mp h.1, fun y hy => h.2 y (hp.mem_iff.mpr hy)⟩

namespace Program

variable {p p' : Program} {c : Catalog}

section Checking

theorem Catalogued.perm (h : p.Catalogued c) (hr : p.records.Perm p'.records)
    (hf : p.funs.Perm p'.funs) : ∃ c', p'.Catalogued c' ∧ c.Agrees c' := by
  obtain ⟨entries, hentries, hperm⟩ := List.perm_comp_forall₂ hr.symm h.records
  have hrecords : c.records.names.Nodup := by
    rw [h.declared.records]
    exact h.declared.records_nodup
  have hfuns : c.funs.names.Nodup := by
    rw [h.funs, Table.names, List.map_map]
    exact h.declared.funs_nodup
  have hfunsPerm : c.funs.Perm (p'.funs.map fun f => (f.name.text, f.signature)) := by
    rw [h.funs]
    exact hf.map _
  have hagree : c.Agrees ⟨entries, p'.funs.map fun f => (f.name.text, f.signature)⟩ :=
    ⟨Table.get?_of_perm hperm.symm hrecords, Table.get?_of_perm hfunsPerm hfuns⟩
  refine ⟨_, ⟨?_, ?_, rfl, hentries.imp fun _ _ => hagree.entryOf⟩, hagree⟩
  · exact h.names.perm ((hr.map _).append (hf.map _))
  · intro f hmem
    rw [Catalog.signature_congr hagree.hasRecord]
    exact h.signatures f (hf.mem_iff.mpr hmem)

theorem makes_perm (hnd : (p.records.map (·.name.text)).Nodup)
    (hr : p.records.Perm p'.records) {x y : String} (h : p'.Makes x y) : p.Makes x y := by
  obtain ⟨target, hmem, rfl⟩ := h
  refine ⟨target, ?_, rfl⟩
  unfold constructions at hmem ⊢
  rwa [find?_of_perm hnd hr] at hmem

theorem check_perm (h : p.check = .ok c) (hr : p.records.Perm p'.records)
    (hf : p.funs.Perm p'.funs) : ∃ c', p'.check = .ok c' ∧ c.Agrees c' := by
  obtain ⟨hcat, hconstruct, ⟨sig, hsig, hshape⟩, hbodies⟩ := check_eq_ok_iff.mp h
  obtain ⟨c', hcat', hagree⟩ := hcat.perm hr hf
  have hnd := hcat.declared.records_nodup
  refine ⟨c', check_eq_ok_iff.mpr ⟨hcat', ?_, ?_, ?_⟩, hagree⟩
  · intro d _
    exact checkConstruction_congr hnd (fun x y => makes_perm hnd hr) hconstruct d
  · exact ⟨sig, (hagree.funs _).trans hsig, hshape⟩
  · intro f hmem
    exact f.check_agrees hagree (hbodies f (hf.mem_iff.mpr hmem))

end Checking

end Program

section Code

/-- Every record has the same fields and the same declaration, and there are as many of them. -/
structure Declarations.Agrees (d d' : Declarations) : Prop where
  fields : ∀ r, d'.catalog.fields? r = d.catalog.fields? r
  record : ∀ r, d'.record? r = d.record? r
  length : d'.records.length = d.records.length

variable {d d' : Declarations}

theorem Declarations.Agrees.constructCode (h : d.Agrees d') (slots : Scopes Nat) (nesting : Nat) :
    d'.constructCode slots nesting = d.constructCode slots nesting := by
  induction nesting with
  | zero =>
    funext name
    unfold Declarations.constructCode
    rw [h.fields, h.record]
  | succ nesting ih =>
    funext name
    unfold Declarations.constructCode
    simp only [h.fields, h.record, ih]

theorem Expr.code_agree (h : d.Agrees d') (slots : Scopes Nat) (e : Expr) :
    e.code d' slots = e.code d slots := by
  simp only [Expr.code, h.constructCode, h.length]

theorem callCode_agree (h : d.Agrees d') (slots : Scopes Nat) (fn : Ident) (args : List Expr) :
    callCode d' slots fn args = callCode d slots fn args := by
  simp only [callCode, h.constructCode, h.length]

mutual

theorem Stmt.generate_agree (h : d.Agrees d') (s : Stmt) (g : Generator) :
    s.generate d' g = s.generate d g := by
  match s with
  | .declare b => simp only [Stmt.generate, Expr.code_agree h]
  | .assign target value => simp only [Stmt.generate, Expr.code_agree h]
  | .cond branches => simp only [Stmt.generate, branches.generate_agree h]
  | .loop test body => simp only [Stmt.generate, Expr.code_agree h, generateStmts_agree h body]
  | .count var start direction stop body =>
    simp only [Stmt.generate, Expr.code_agree h, generateStmts_agree h body]
  | .ret none _ => rfl
  | .ret (some value) _ => simp only [Stmt.generate, Expr.code_agree h]
  | .delete name => rfl
  | .call fn args => simp only [Stmt.generate, callCode_agree h]

theorem generateStmts_agree (h : d.Agrees d') (ss : List Stmt) (g : Generator) :
    generateStmts d' g ss = generateStmts d g ss := by
  match ss with
  | [] => rfl
  | s :: rest => simp only [generateStmts, s.generate_agree h, generateStmts_agree h rest]

theorem Branches.generate_agree (h : d.Agrees d') (bs : Branches) (done : Nat) (g : Generator) :
    bs.generate d' done g = bs.generate d done g := by
  match bs with
  | .done => rfl
  | .otherwise body => simp only [Branches.generate, generateStmts_agree h body]
  | .branch test body rest =>
    simp only [Branches.generate, Expr.code_agree h, generateStmts_agree h body,
      rest.generate_agree h]

end

theorem FunDecl.compile_agree (h : d.Agrees d') (f : FunDecl) : f.compile d' = f.compile d := by
  simp only [FunDecl.compile, generateStmts_agree h]

end Code

namespace Program

variable {p p' : Program} {c c' : Catalog}

theorem declarations_agree (hnd : (p.records.map (·.name.text)).Nodup)
    (hr : p.records.Perm p'.records) (hc : c.Agrees c') :
    Declarations.Agrees ⟨c, p.records⟩ ⟨c', p'.records⟩ := by
  refine ⟨hc.fields, ?_, hr.length_eq.symm⟩
  intro r
  have hperm : p.records.reverse.Perm p'.records.reverse :=
    (List.reverse_perm _).trans (hr.trans (List.reverse_perm _).symm)
  have hnd' : (p.records.reverse.map (·.name.text)).Nodup :=
    ((List.reverse_perm _).map _).nodup_iff.mpr hnd
  exact find?_of_perm hnd' hperm r

theorem exists_routines (h : p.check = .ok c) :
    ∃ routine : FunDecl → Routine, ∀ f ∈ p.funs,
      f.compile ⟨c, p.records⟩ = .ok (routine f) := by
  obtain ⟨hp, hconstruct, _, hbodies⟩ := check_eq_ok h
  have hset : p.Settled c fun name => (c.fun? name).map (·.params.length) := by
    refine ⟨hp, hconstruct, ?_⟩
    intro name sig hsig
    simp only [hsig, Option.map_some]
  have : Nonempty Routine := ⟨⟨"", 0, #[]⟩⟩
  choose! routine hroutine using fun f hf => FunDecl.exists_routine hset (hbodies f hf)
  exact ⟨routine, hroutine⟩

/-- The order in which records and functions are declared is irrelevant: a program is accepted in
each order or in none, names mean the same, and each function has the same routine, which stands
where the function stands. -/
theorem declaration_order_is_irrelevant (hr : p.records.Perm p'.records)
    (hf : p.funs.Perm p'.funs) :
    ((∃ c, p.check = .ok c) ↔ ∃ c', p'.check = .ok c') ∧
      ∀ c c', p.check = .ok c → p'.check = .ok c' →
        c.Agrees c' ∧ ∃ routine : FunDecl → Routine,
          p.compile c = .ok (p.funs.map routine) ∧ p'.compile c' = .ok (p'.funs.map routine) := by
  constructor
  · constructor
    · rintro ⟨c, h⟩
      obtain ⟨c', h', _⟩ := check_perm h hr hf
      exact ⟨c', h'⟩
    · rintro ⟨c', h'⟩
      obtain ⟨c, h, _⟩ := check_perm h' hr.symm hf.symm
      exact ⟨c, h⟩
  · intro c c' h h'
    obtain ⟨c₁, h₁, hagree⟩ := check_perm h hr hf
    obtain rfl : c₁ = c' := Except.ok.inj (h₁.symm.trans h')
    have hdecl := declarations_agree (check_eq_ok h).1.records_nodup hr hagree
    obtain ⟨routine, hroutine⟩ := exists_routines h
    refine ⟨hagree, routine, mapM_eq_ok_map hroutine, mapM_eq_ok_map ?_⟩
    intro f hmem
    rw [FunDecl.compile_agree hdecl]
    exact hroutine f (hf.mem_iff.mpr hmem)

/-- Two records and two functions, each of which refers to the other, and `main`. -/
def entangled : Program where
  records :=
    [⟨name "Tree", [⟨name "leaf", none, .single false (.construct (name "Leaf")) default⟩,
        ⟨name "size", none, callExpr "ping" [intExpr 3]⟩]⟩,
      ⟨name "Leaf", [⟨name "tree", some ⟨.record "Tree", default⟩,
        .single false (.literal .nil default) default⟩]⟩]
  funs :=
    [⟨⟨.void, default⟩, name "main", [],
        [.declare ⟨name "tree", none, .single false (.construct (name "Tree")) default⟩,
          .assign [name "tree", name "leaf", name "tree"] (pathExpr ["tree"])]⟩,
      ⟨⟨.int, default⟩, name "ping", [⟨⟨.int, default⟩, name "n"⟩],
        [.ret (some (callExpr "pong" [pathExpr ["n"]])) default]⟩,
      ⟨⟨.int, default⟩, name "pong", [⟨⟨.int, default⟩, name "n"⟩],
        [.cond (.branch (.chain false (.path [name "n"]) .lt default (intExpr 1) default)
          [.ret (some (pathExpr ["n"])) default] .done),
          .ret (some (callExpr "ping" [intExpr 0])) default]⟩]

def entangledBackwards : Program := ⟨entangled.records.reverse, entangled.funs.reverse⟩

theorem entangled_reads_backwards :
    entangled.records.Perm entangledBackwards.records ∧
      entangled.funs.Perm entangledBackwards.funs ∧
      ∃ c c', entangled.check = .ok c ∧ entangledBackwards.check = .ok c' ∧ c.Agrees c' ∧
        ∃ main ping pong, entangled.compile c = .ok [main, ping, pong] ∧
          entangledBackwards.compile c' = .ok [pong, ping, main] := by
  obtain ⟨c, hcheck⟩ : ∃ c, entangled.check = .ok c := exists_of_isOk (by decide +kernel)
  have hr : entangled.records.Perm entangledBackwards.records := (List.reverse_perm _).symm
  have hf : entangled.funs.Perm entangledBackwards.funs := (List.reverse_perm _).symm
  obtain ⟨hiff, hall⟩ := declaration_order_is_irrelevant hr hf
  obtain ⟨c', hcheck'⟩ := hiff.mp ⟨c, hcheck⟩
  obtain ⟨hagree, routine, hcompile, hcompile'⟩ := hall c c' hcheck hcheck'
  exact ⟨hr, hf, c, c', hcheck, hcheck', hagree, _, _, _, hcompile, hcompile'⟩

end Program

end RecordLang

import RecordLang.Proofs.Balance.Coverage
import RecordLang.Proofs.Compile.Instructions
import RecordLang.Proofs.Compile.Statements
import RecordLang.Proofs.Compile.Totality

/-! # Code of checked programs

A program that has been checked, and whose functions have no more variables than a frame has slots,
can be compiled, and its code is balanced. The depths of the stack are words of 64 bits; they do not
wrap around as long as the tree of the program has fewer than `2 ^ 63` nodes.
-/

namespace RecordLang

open Generator

def FunDecl.locals (f : FunDecl) : Nat := f.params.length + stmtLocals f.body

def FunDecl.nodes (f : FunDecl) : Nat := f.params.length + stmtNodes f.body + 1

def Program.nodes (p : Program) : Nat := p.recordNodes + (p.funs.map FunDecl.nodes).sum

variable {p : Program} {c : Catalog} {arity : String → Option Nat} {top : Nat} {f : FunDecl}
  {d : Declarations} {g g' : Generator} {ds body : List Directive} {r : Routine}

section Functions

theorem prologue_leads (first count : Nat) (htop : count ≤ top) :
    Leads arity top count (emits ((List.range' first count).map .store)) 0 := by
  induction count generalizing first with
  | zero => exact .nil htop
  | succ count ih =>
    rw [List.range'_succ, List.map_cons, emits_cons]
    exact .store htop (ih (first + 1) (by omega))

theorem Stmt.generate_isReturn {s : Stmt} (hret : s.isReturn = true)
    (hok : s.generate d g = .ok (ds, g')) : ∃ init, ds = init ++ [.emit .ret] := by
  cases s with
  | ret value pos =>
    cases value with
    | none =>
      cases hok
      exact ⟨[.emit (.push .nil)], rfl⟩
    | some value =>
      obtain ⟨code, _, hok⟩ := bind_eq_ok.mp hok
      cases hok
      exact ⟨emits code, emits_append code [.ret]⟩
  | _ => cases hret

theorem generateStmts_isReturn {ss : List Stmt} (hret : ss.any Stmt.isReturn = true)
    (hok : generateStmts d g ss = .ok (ds, g')) : ∃ init, ds = init ++ [.emit .ret] := by
  induction ss generalizing g ds with
  | nil => cases hret
  | cons s rest ih =>
    obtain ⟨first, g₁, hfirst, h⟩ := generateStmts_cons hok
    rcases h with ⟨hs, rfl, rfl⟩ | ⟨hs, more, hmore, rfl⟩
    · exact s.generate_isReturn hs hfirst
    · rw [List.any_cons, hs, Bool.false_or] at hret
      obtain ⟨init, rfl⟩ := ih hret hmore
      exact ⟨first ++ init, (List.append_assoc ..).symm⟩

theorem FunDecl.row_ends (hok : generateStmts d g f.body = .ok (body, g')) :
    ∃ init, f.row body = init ++ [.emit .ret] := by
  unfold row epilogue
  split
  next hret =>
    obtain ⟨init, rfl⟩ := generateStmts_isReturn hret hok
    exact ⟨emits f.prologue ++ init, by simp⟩
  next => exact ⟨emits f.prologue ++ body ++ [.emit (.push .nil)], by simp⟩

/-- The directives of a checked function take its arguments from the stack and leave nothing. -/
theorem FunDecl.row_leads (hp : p.Settled c arity) (hcheck : f.check c = .ok ())
    (hbody : generateStmts ⟨c, p.records⟩ f.generator f.body = .ok (body, g))
    (htop : f.nodes + p.recordNodes ≤ top) : Leads arity top f.params.length (f.row body) 0 := by
  unfold FunDecl.nodes at htop
  have hprologue : Leads arity top f.params.length (emits f.prologue) 0 := by
    rw [FunDecl.prologue, List.range_eq_range']
    exact prologue_leads 0 _ (by omega)
  have hepilogue : Leads arity top 0 (emits f.epilogue) 0 := by
    unfold FunDecl.epilogue
    split
    next => exact .nil (by omega)
    next => exact .push (by omega) (.ret (.nil (by omega)))
  have hroom : stmtNodes f.body + p.recordNodes ≤ top := by omega
  have hleads := generateStmts_leads hp f.body hcheck hbody hroom
  exact (hprologue.append hleads).append hepilogue

theorem FunDecl.row_slots (hbody : generateStmts d f.generator f.body = .ok (body, g)) :
    SlotsBelow f.locals (emitted (f.row body)) := by
  obtain ⟨hnext, hbelow⟩ := generateStmts_takes f.body hbody
  rw [f.generator_next.1] at hnext
  have hbody := hbelow f.generator_sound.bounded
  rw [hnext] at hbody
  have hprologue : SlotsBelow f.locals f.prologue := by
    intro i hi n hn
    obtain ⟨k, hk, rfl⟩ := List.mem_map.mp hi
    cases hn
    exact Nat.lt_of_lt_of_le (List.mem_range.mp hk) (Nat.le_add_right _ _)
  have hepilogue : SlotsBelow f.locals f.epilogue := by
    unfold FunDecl.epilogue
    split
    next => exact .nil
    next => exact .cons (by rintro _ ⟨⟩) (.cons (by rintro _ ⟨⟩) .nil)
  simpa [FunDecl.row] using (hprologue.append hbody).append hepilogue

theorem FunDecl.compile_eq_ok (h : f.compile d = .ok r) :
    r.name = f.name.text ∧ r.arity = f.params.length ∧ ∃ body g place,
      generateStmts d f.generator f.body = .ok (body, g) ∧ Placed place 0 (f.row body) ∧
        r.code.toList = linked place (f.row body) := by
  obtain ⟨⟨body, g⟩, hbody, h⟩ := bind_eq_ok.mp h
  obtain ⟨code, hcode, h⟩ := bind_eq_ok.mp h
  cases h
  obtain ⟨place, hplaced, hlinked⟩ := assemble_eq_ok hcode
  exact ⟨rfl, rfl, body, g, place, hbody, hplaced, hlinked⟩

theorem FunDecl.checkBalance_of_compile {arities : Table Nat} (hp : p.Settled c arities.get?)
    (hcheck : f.check c = .ok ()) (hlocals : f.locals ≤ maxLocals)
    (hnodes : f.nodes + p.recordNodes < 2 ^ 63) (hr : f.compile ⟨c, p.records⟩ = .ok r) :
    r.checkBalance arities = .ok () := by
  obtain ⟨_, harity, body, g, place, hbody, hplaced, hlinked⟩ := FunDecl.compile_eq_ok hr
  obtain ⟨body', g', k, hbody', hown⟩ := FunDecl.exists_row hp hcheck
  obtain ⟨rfl, rfl⟩ := Prod.mk.inj (Except.ok.inj (hbody.symm.trans hbody'))
  have hleads := FunDecl.row_leads hp hcheck hbody (Nat.le_refl _)
  have hslots : ∀ i ∈ r.code, ∀ n, i.slot? = some n → n < maxLocals := by
    intro i hi n hn
    have hmem : i ∈ linked place (f.row body) := hlinked ▸ Array.mem_toList_iff.mpr hi
    have hlt := FunDecl.row_slots hbody i (mem_emitted_of_slot hmem hn) n hn
    exact Nat.lt_of_lt_of_le hlt hlocals
  obtain ⟨init, hinit⟩ := FunDecl.row_ends hbody
  rw [hinit] at hplaced hlinked hleads hown
  rw [← harity] at hleads
  refine Routine.checkBalance_of_leads hlinked hplaced hslots ?_ hleads hnodes
  intro l hl
  rcases hown.goals l (by simp [hl]) with hmade | hout
  · simpa [Directive.bound?] using hown.mem_boundLabels.mpr hmade
  · cases hout

end Functions

namespace Program

variable {b : Bytecode}

/-- The routines of a compiled program are found by the names of its functions. -/
theorem compile_eq_ok (hp : p.Declared c) (h : p.compile c = .ok b) {f : FunDecl}
    (hf : f ∈ p.funs) :
    ∃ r, f.compile ⟨c, p.records⟩ = .ok r ∧ (b.addTo []).get? f.name.text = some r := by
  have hall := mapM_eq_ok.mp h
  have hnames : p.funs.map (·.name.text) = b.map Routine.name := by
    rw [← List.forall₂_eq_eq_eq, List.forall₂_map_left_iff, List.forall₂_map_right_iff]
    exact hall.imp fun f r hr => (FunDecl.compile_eq_ok hr).1.symm
  obtain ⟨r, hr, hcompile⟩ := exists_of_forall₂ hall hf
  refine ⟨r, hcompile, ?_⟩
  rw [← (FunDecl.compile_eq_ok hcompile).1]
  exact Bytecode.get?_addTo_of_mem (hnames ▸ hp.funs_nodup) hr

theorem arities_of_compile (hp : p.Declared c) (h : p.compile c = .ok b) :
    c.Arities (arities b).get? := by
  intro name sig hsig
  obtain ⟨f, hf, rfl, rfl⟩ := hp.fun?_eq_some_iff.mp hsig
  obtain ⟨r, hr, hget⟩ := compile_eq_ok hp h hf
  obtain ⟨_, harity, _⟩ := FunDecl.compile_eq_ok hr
  rw [Bytecode.arities_get?, hget, Option.map_some, harity, FunDecl.signature, List.length_map]

theorem nodes_le_of_mem (hf : f ∈ p.funs) : f.nodes + p.recordNodes ≤ p.nodes := by
  obtain ⟨before, behind, hfuns⟩ := List.append_of_mem hf
  simp only [Program.nodes, hfuns, List.map_append, List.map_cons, List.sum_append, List.sum_cons]
  omega

/-- A checked program whose functions have no more variables than a frame has slots compiles, and
its code is balanced. Only a tree of `2 ^ 63` nodes could bring the stack to a depth at which the
words of the check wrap around. -/
theorem checked_program_compiles_to_balanced_code (hcheck : p.check = .ok c)
    (hlocals : ∀ f ∈ p.funs, f.locals ≤ maxLocals) :
    ∃ b, p.compile c = .ok b ∧ (p.nodes < 2 ^ 63 → b.checkBalance = .ok ()) := by
  obtain ⟨hp, hcyc, _, hfuns⟩ := check_eq_ok hcheck
  have hknown : p.Settled c fun name => (c.fun? name).map (·.params.length) := by
    refine ⟨hp, hcyc, ?_⟩
    intro name sig hsig
    simp only [hsig, Option.map_some]
  obtain ⟨b, hb⟩ := exists_mapM fun f hf =>
    FunDecl.exists_routine hknown (hfuns f hf)
  refine ⟨b, hb, ?_⟩
  intro hnodes
  have hset : p.Settled c (arities b).get? := ⟨hp, hcyc, arities_of_compile hp hb⟩
  refine forM_eq_ok.mpr ?_
  intro r hr
  obtain ⟨f, hf, hcompile⟩ := exists_of_forall₂ (mapM_eq_ok.mp hb).flip hr
  have hsmall := Nat.lt_of_le_of_lt (nodes_le_of_mem hf) hnodes
  exact FunDecl.checkBalance_of_compile hset (hfuns f hf) (hlocals f hf) hsmall hcompile

def name (text : String) : Ident := ⟨text, default⟩

def intExpr (n : Int64) : Expr := .single false (.literal (.int n) default) default

def pathExpr (names : List String) : Expr := .single false (.path (names.map name)) default

def callExpr (fn : String) (args : List Expr) : Expr := .single false (.call (name fn) args) default

/-- Makes a record inside a record, counts with it, and returns from the middle of the loop. -/
def nested : Program where
  records :=
    [⟨name "Outer", [⟨name "inner", none, .single false (.construct (name "Inner")) default⟩]⟩,
      ⟨name "Inner", [⟨name "n", none, intExpr 0⟩]⟩]
  funs :=
    [⟨⟨.void, default⟩, name "main", [],
      [.declare ⟨name "cell", none, .single false (.construct (name "Outer")) default⟩,
        .count (name "i") (intExpr 1) .upto (intExpr 9)
          [.cond (.branch (.chain false (.path [name "i"]) .lt default (intExpr 4) default)
            [.declare ⟨name "j", none, pathExpr ["i"]⟩,
              .assign [name "cell", name "inner", name "n"] (pathExpr ["j"])]
            (.otherwise [.ret none default, .declare ⟨name "k", none, intExpr 2⟩]))],
        .call (name "print") [pathExpr ["cell", "inner", "n"]]]⟩]

theorem nested_compiles_to_balanced_code :
    ∃ c b, nested.check = .ok c ∧ nested.funs.map FunDecl.locals = [3] ∧
      nested.compile c = .ok b ∧ b.checkBalance = .ok () := by
  obtain ⟨c, hcheck⟩ : ∃ c, nested.check = .ok c := exists_of_isOk (by decide +kernel)
  have hlocals : ∀ f ∈ nested.funs, f.locals ≤ maxLocals := by decide
  obtain ⟨b, hcompile, hb⟩ := checked_program_compiles_to_balanced_code hcheck hlocals
  exact ⟨c, b, hcheck, by decide, hcompile, hb (by decide)⟩

end Program

end RecordLang

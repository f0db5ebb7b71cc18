import RecordLang.Proofs.Compile.Programs
import RecordLang.Proofs.Machine.Traversal
import RecordLang.Proofs.Simulation.Statements

/-! # Enclosed code

The code of an expression has no jumps, and the jumps in the code of statements stay inside of it.
The code of a function has the code of each of its statements in it, except for dead ones.
-/

namespace RecordLang

def JumpFree (code : Code) : Prop := ∀ i ∈ code, i.target? = none

namespace JumpFree

variable {code code' : Code}

theorem nil : JumpFree [] := nofun

theorem cons {i : Instruction} (hi : i.target? = none) (h : JumpFree code) :
    JumpFree (i :: code) :=
  List.forall_mem_cons.mpr ⟨hi, h⟩

theorem append (h : JumpFree code) (h' : JumpFree code') : JumpFree (code ++ code') :=
  List.forall_mem_append.mpr ⟨h, h'⟩

end JumpFree

section Expressions

variable {d : Declarations} {slots : Scopes Nat} {code : Code}

theorem Computes.jumpFree (h : Computes slots code) : JumpFree code := fun i hi =>
  (h i hi).target?_eq_none

theorem Expr.code_jumpFree {e : Expr} (h : e.code d slots = .ok code) : JumpFree code :=
  (Expr.code_computes h).jumpFree

theorem callCode_jumpFree {fn : Ident} {args : List Expr}
    (h : callCode d slots fn args = .ok code) : JumpFree code :=
  (callCode_computes h).jumpFree

theorem storeCode_jumpFree {target : List Ident} (h : storeCode slots target = .ok code) :
    JumpFree code := fun i hi =>
  (storeCode_slots h i hi).1

end Expressions

/-! ## Statements -/

/-- Directives that jump to labels only, to those that they bind and to those in `outer`. -/
structure Enclosed (outer : List Nat) (ds : List Directive) : Prop where
  jumpFree : ∀ i, .emit i ∈ ds → i.target? = none
  goals : ∀ l ∈ goals ds, l ∈ boundLabels ds ∨ l ∈ outer

namespace Enclosed

variable {outer outer' : List Nat} {ds ds' : List Directive} {code : Code}

theorem nil : Enclosed outer [] := ⟨nofun, nofun⟩

theorem cons {dir : Directive} (hemit : ∀ i, dir = .emit i → i.target? = none)
    (hgoal : ∀ l, dir.goal? = some l → l ∈ outer) (h : Enclosed outer ds) :
    Enclosed outer (dir :: ds) := by
  constructor
  · intro i hi
    rcases List.mem_cons.mp hi with rfl | hi
    · exact hemit i rfl
    · exact h.jumpFree i hi
  · intro l hl
    rw [goals_cons, List.mem_append] at hl
    rw [boundLabels_cons, List.mem_append]
    rcases hl with hl | hl
    · exact .inr (hgoal l (by simpa using hl))
    · exact (h.goals l hl).imp_left .inr

theorem append (h : Enclosed outer ds) (h' : Enclosed outer ds') : Enclosed outer (ds ++ ds') := by
  constructor
  · intro i hi
    rcases List.mem_append.mp hi with hi | hi
    · exact h.jumpFree i hi
    · exact h'.jumpFree i hi
  · intro l hl
    rw [goals_append, List.mem_append] at hl
    rw [boundLabels_append, List.mem_append]
    rcases hl with hl | hl
    · exact (h.goals l hl).imp_left .inl
    · exact (h'.goals l hl).imp_left .inr

theorem emits (h : JumpFree code) : Enclosed outer (emits code) := by
  constructor
  · intro i hi
    obtain ⟨j, hj, heq⟩ := List.mem_map.mp hi
    cases heq
    exact h i hj
  · intro l hl
    rw [goals_emits] at hl
    cases hl

theorem close (h : Enclosed outer ds) (ho : ∀ l ∈ outer, l ∈ boundLabels ds ∨ l ∈ outer') :
    Enclosed outer' ds := by
  refine ⟨h.jumpFree, ?_⟩
  intro l hl
  rcases h.goals l hl with hbound | hout
  · exact .inl hbound
  · exact ho l hout

theorem weaken (h : Enclosed [] ds) : Enclosed outer ds := h.close nofun

theorem newLabel (h : Enclosed outer ds) : Enclosed outer (.newLabel :: ds) := h.cons nofun nofun

theorem bind (l : Nat) (h : Enclosed outer ds) : Enclosed outer (.bind l :: ds) :=
  h.cons nofun nofun

theorem jump {l : Nat} (hl : l ∈ outer) (h : Enclosed outer ds) :
    Enclosed outer (.jump l :: ds) := by
  refine h.cons nofun ?_
  rintro _ ⟨⟩
  exact hl

theorem jumpIfFalse {l : Nat} (hl : l ∈ outer) (h : Enclosed outer ds) :
    Enclosed outer (.jumpIfFalse l :: ds) := by
  refine h.cons nofun ?_
  rintro _ ⟨⟩
  exact hl

theorem loop {enter test next : Code} (henter : JumpFree enter) (htest : JumpFree test)
    (hnext : JumpFree next) (h : Enclosed [] ds) (n : Nat) :
    Enclosed [] (.newLabel :: .newLabel :: RecordLang.emits enter ++
      .bind n :: RecordLang.emits test ++ .jumpIfFalse (n + 1) :: ds ++ RecordLang.emits next ++
      [.jump n, .bind (n + 1)]) := by
  have hentered : Enclosed [n, n + 1] (.newLabel :: .newLabel :: RecordLang.emits enter) :=
    (emits henter).newLabel.newLabel
  have htested := hentered.append ((emits htest).bind n)
  have hbody := htested.append (h.weaken.jumpIfFalse (.tail _ (.head _)))
  have hback : Enclosed [n, n + 1] [.jump n, .bind (n + 1)] := (nil.bind (n + 1)).jump (.head _)
  refine ((hbody.append (emits hnext)).append hback).close ?_
  intro l hl
  left
  simp only [List.mem_cons, List.not_mem_nil, or_false] at hl
  rcases hl with rfl | rfl <;> simp [Directive.bound?]

theorem branch {test : Code} {leave more : List Directive} {done : Nat} (htest : JumpFree test)
    (h : Enclosed [] ds) (hleave : Enclosed [done] leave) (hmore : Enclosed [done] more) (n : Nat) :
    Enclosed [done] (.newLabel :: RecordLang.emits test ++ .jumpIfFalse n :: ds ++ leave ++
      .bind n :: more) := by
  have hwiden : ∀ {ds}, Enclosed [done] ds → Enclosed [n, done] ds := fun h => h.close (by simp)
  have htested : Enclosed [n, done] (.newLabel :: RecordLang.emits test) := (emits htest).newLabel
  have hbody := htested.append (h.weaken.jumpIfFalse (.head _))
  refine ((hbody.append (hwiden hleave)).append ((hwiden hmore).bind n)).close ?_
  intro l hl
  simp only [List.mem_cons, List.not_mem_nil, or_false] at hl
  rcases hl with rfl | rfl
  · exact .inl (by simp [Directive.bound?])
  · exact .inr (.head _)

end Enclosed

variable {d : Declarations}

mutual

theorem Stmt.generate_enclosed {g g' : Generator} {ds : List Directive} (s : Stmt)
    (hok : s.generate d g = .ok (ds, g')) : Enclosed [] ds := by
  match s with
  | .declare b =>
    obtain ⟨init, hinit, hok⟩ := bind_eq_ok.mp hok
    cases hok
    exact .emits ((Expr.code_jumpFree hinit).append (.cons rfl .nil))
  | .assign target value =>
    obtain ⟨code, hcode, hok⟩ := bind_eq_ok.mp hok
    obtain ⟨store, hstore, hok⟩ := bind_eq_ok.mp hok
    cases hok
    exact .emits ((Expr.code_jumpFree hcode).append (storeCode_jumpFree hstore))
  | .cond branches =>
    obtain ⟨⟨body, g₁⟩, hbody, hok⟩ := bind_eq_ok.mp hok
    cases hok
    refine ((branches.generate_enclosed hbody).newLabel.append (Enclosed.nil.bind _)).close ?_
    intro l hl
    obtain rfl := List.mem_singleton.mp hl
    exact .inl (by simp [Directive.bound?])
  | .loop test body =>
    obtain ⟨testCode, htest, hok⟩ := bind_eq_ok.mp hok
    obtain ⟨⟨inner, g₁⟩, hbody, hok⟩ := bind_eq_ok.mp hok
    cases hok
    have h := Enclosed.loop .nil (Expr.code_jumpFree htest) .nil
      (generateStmts_enclosed body hbody) g.nextLabel
    simpa using h
  | .count var start direction stop body =>
    obtain ⟨startCode, hstart, hok⟩ := bind_eq_ok.mp hok
    obtain ⟨stopCode, hstop, hok⟩ := bind_eq_ok.mp hok
    obtain ⟨⟨inner, g₁⟩, hbody, hok⟩ := bind_eq_ok.mp hok
    cases hok
    exact .loop ((Expr.code_jumpFree hstart).append (.cons rfl .nil))
      (.append (.cons rfl (Expr.code_jumpFree hstop)) (.cons rfl .nil))
      (.cons rfl (.cons rfl (.cons rfl (.cons rfl .nil)))) (generateStmts_enclosed body hbody)
      g.nextLabel
  | .ret none _ =>
    cases hok
    exact .emits (.cons rfl (.cons rfl .nil))
  | .ret (some value) _ =>
    obtain ⟨code, hcode, hok⟩ := bind_eq_ok.mp hok
    cases hok
    exact .emits ((Expr.code_jumpFree hcode).append (.cons rfl .nil))
  | .delete name =>
    obtain ⟨slot, _, hok⟩ := bind_eq_ok.mp hok
    cases hok
    exact .emits (.cons rfl (.cons rfl .nil))
  | .call fn args =>
    obtain ⟨code, hcode, hok⟩ := bind_eq_ok.mp hok
    cases hok
    exact .emits ((callCode_jumpFree hcode).append (.cons rfl .nil))

theorem generateStmts_enclosed {g g' : Generator} {ds : List Directive} (ss : List Stmt)
    (hok : generateStmts d g ss = .ok (ds, g')) : Enclosed [] ds := by
  match ss with
  | [] =>
    cases hok
    exact .nil
  | s :: rest =>
    obtain ⟨first, g₁, hfirst, h⟩ := generateStmts_cons hok
    rcases h with ⟨_, rfl, rfl⟩ | ⟨_, more, hmore, rfl⟩
    · exact s.generate_enclosed hfirst
    · exact (s.generate_enclosed hfirst).append (generateStmts_enclosed rest hmore)

theorem Branches.generate_enclosed {g g' : Generator} {ds : List Directive} {done : Nat}
    (bs : Branches) (hok : bs.generate d done g = .ok (ds, g')) : Enclosed [done] ds := by
  match bs with
  | .done =>
    cases hok
    exact .nil
  | .otherwise body =>
    obtain ⟨⟨inner, g₁⟩, hbody, hok⟩ := bind_eq_ok.mp hok
    cases hok
    exact (generateStmts_enclosed body hbody).weaken
  | .branch test body rest =>
    obtain ⟨testCode, htest, hok⟩ := bind_eq_ok.mp hok
    obtain ⟨⟨inner, g₁⟩, hbody, hok⟩ := bind_eq_ok.mp hok
    obtain ⟨⟨more, g₂⟩, hmore, hok⟩ := bind_eq_ok.mp hok
    cases hok
    refine .branch (Expr.code_jumpFree htest) (generateStmts_enclosed body hbody) ?_
      (rest.generate_enclosed hmore) g.nextLabel
    cases rest with
    | done => exact .nil
    | _ => exact Enclosed.nil.jump (.head _)

end

/-! ## Linked code -/

section Linked

variable {place : Nat → Nat} {r : Routine} {pc : Nat} {ds : List Directive} {code : Code}

theorem Routine.Has.getElem? (hr : r.Has pc code) {j : Nat} (hj : j < code.length) :
    code[j]? = r.code[pc + j]? := by
  rw [hr j code[j] (List.getElem?_eq_getElem hj), List.getElem?_eq_getElem hj]

theorem Routine.Has.mem (hr : r.Has pc code) {q : Nat} {i : Instruction} (hlow : pc ≤ q)
    (hhigh : q < pc + code.length) (hi : r.code[q]? = some i) : i ∈ code := by
  obtain ⟨j, rfl⟩ := Nat.exists_eq_add_of_le hlow
  rw [← hr.getElem? (by omega)] at hi
  exact List.mem_of_getElem? hi

theorem Computes.storeless {slots : Scopes Nat} (h : Computes slots code) (hr : r.Has pc code) :
    r.Storeless pc (pc + code.length) := fun _ n hlow hhigh hi =>
  (h _ (hr.mem hlow hhigh hi)).ne_store n rfl

theorem Routine.Has.fitted (hr : r.Has pc code) (place : Nat → Nat) :
    Fitted place r pc (emits code) := by
  refine ⟨?_, (linked_emits place code).symm ▸ hr⟩
  clear hr
  induction code generalizing pc with
  | nil => trivial
  | cons i code ih => exact ⟨nofun, ih⟩

theorem exists_goal_of_target (h : ∀ i, .emit i ∈ ds → i.target? = none) {i : Instruction}
    (hi : i ∈ linked place ds) {t : Nat} (ht : i.target? = some t) :
    ∃ l ∈ goals ds, t = place l := by
  obtain ⟨dir, hdir, hi⟩ := List.mem_flatMap.mp hi
  cases dir with
  | emit j =>
    cases List.mem_singleton.mp hi
    rw [h _ hdir] at ht
    cases ht
  | newLabel => cases hi
  | bind l => cases hi
  | jump l =>
    cases List.mem_singleton.mp hi
    cases ht
    exact ⟨l, List.mem_filterMap.mpr ⟨_, hdir, rfl⟩, rfl⟩
  | jumpIfFalse l =>
    cases List.mem_singleton.mp hi
    cases ht
    exact ⟨l, List.mem_filterMap.mpr ⟨_, hdir, rfl⟩, rfl⟩

theorem Enclosed.closed (h : Enclosed [] ds) (hfit : Fitted place r pc ds) :
    r.Closed pc (pc + codeSize ds) := by
  intro q i t hlow hhigh hi ht
  rw [← length_linked place ds] at hhigh
  obtain ⟨l, hl, rfl⟩ := exists_goal_of_target h.jumpFree (hfit.2.mem hlow hhigh hi) ht
  rcases h.goals l hl with hbound | hout
  · exact ⟨hfit.1.ge hbound, hfit.1.le hbound⟩
  · cases hout

/-- Directives that lead from an empty stack to `k` operands raise the stack by as many wherever
they stand. -/
theorem Leads.raises {arity : String → Option Nat} {top k : Nat} (h : Leads arity top 0 ds k)
    (henc : Enclosed [] ds) (hfit : Fitted place r pc ds) :
    r.Raises arity pc (pc + codeSize ds) k := by
  obtain ⟨depth, hzero, hend, hdepth⟩ := h.exists_depths place
  refine ⟨Nat.le_add_right _ _, henc.closed hfit, fun q => depth (q - pc), ?_, ?_, ?_⟩
  · simpa using hzero
  · simpa using hend
  · intro q i hlow hhigh hi
    obtain ⟨j, rfl⟩ := Nat.exists_eq_add_of_le hlow
    rw [← length_linked place ds] at hhigh
    rw [← hfit.2.getElem? (by omega)] at hi
    obtain ⟨pops, pushes, hstep⟩ := hdepth.steps j i hi
    simp only [Nat.add_sub_cancel_left]
    refine ⟨pops, pushes, hstep.effect, hstep.enough, ?_⟩
    rintro q (⟨rfl, hfall⟩ | ht)
    · rw [Nat.add_assoc, Nat.add_sub_cancel_left]
      exact hstep.behind hfall
    · -- a jump goes to a label of the directives, where the stack is empty
      obtain ⟨⟨l, hl, rfl⟩, hpops, hpushes⟩ := hstep.target q ht
      rcases henc.goals l hl with hbound | hout
      · obtain ⟨j', hj', hempty⟩ := hdepth.labels pc hfit.1 l hbound
        rw [hj', Nat.add_sub_cancel_left, hempty]
        omega
      · cases hout

theorem JumpFree.raises {arity : String → Option Nat} {top k : Nat} (hcode : JumpFree code)
    (h : Leads arity top 0 (emits code) k) (hr : r.Has pc code) :
    r.Raises arity pc (pc + code.length) k := by
  have hraises := h.raises (.emits hcode) (hr.fitted id)
  rwa [codeSize_emits] at hraises

end Linked

/-! ## Live statements -/

mutual

/-- The statement `t` is this one, or it stands inside and not behind a `return` there. -/
inductive LiveIn (t : Stmt) : Stmt → Prop where
  | self : LiveIn t t
  | cond {branches : Branches} (h : LiveBranch t branches) : LiveIn t (.cond branches)
  | loop {test : Expr} {body : List Stmt} (h : LiveAmong t body) : LiveIn t (.loop test body)
  | count {var : Ident} {start stop : Expr} {direction : Direction} {body : List Stmt}
      (h : LiveAmong t body) : LiveIn t (.count var start direction stop body)

inductive LiveAmong (t : Stmt) : List Stmt → Prop where
  | head {s : Stmt} {rest : List Stmt} (h : LiveIn t s) : LiveAmong t (s :: rest)
  | tail {s : Stmt} {rest : List Stmt} (hs : s.isReturn = false) (h : LiveAmong t rest) :
      LiveAmong t (s :: rest)

inductive LiveBranch (t : Stmt) : Branches → Prop where
  | otherwise {body : List Stmt} (h : LiveAmong t body) : LiveBranch t (.otherwise body)
  | body {test : Expr} {body : List Stmt} {rest : Branches} (h : LiveAmong t body) :
      LiveBranch t (.branch test body rest)
  | rest {test : Expr} {body : List Stmt} {rest : Branches} (h : LiveBranch t rest) :
      LiveBranch t (.branch test body rest)

end

section Checks

variable {c : Catalog} {ret : Ty} {t : Stmt}

mutual

theorem LiveIn.checked (s : Stmt) {Γ Γ' : Scopes Meaning} (h : LiveIn t s)
    (hcheck : s.check c ret Γ = .ok Γ') : ∃ Γ Γ', t.check c ret Γ = .ok Γ' := by
  match s with
  | .cond branches =>
    cases h with
    | self => exact ⟨Γ, Γ', hcheck⟩
    | cond h =>
      obtain ⟨_, hbranches, _⟩ := bind_eq_ok.mp hcheck
      exact LiveBranch.checked branches h hbranches
  | .loop test body =>
    cases h with
    | self => exact ⟨Γ, Γ', hcheck⟩
    | loop h =>
      obtain ⟨_, _, hcheck⟩ := bind_eq_ok.mp hcheck
      obtain ⟨_, hbody, _⟩ := bind_eq_ok.mp hcheck
      exact LiveAmong.checked body h hbody
  | .count var start direction stop body =>
    cases h with
    | self => exact ⟨Γ, Γ', hcheck⟩
    | count h =>
      obtain ⟨_, _, hcheck⟩ := bind_eq_ok.mp hcheck
      obtain ⟨_, _, hcheck⟩ := bind_eq_ok.mp hcheck
      obtain ⟨_, hbody, _⟩ := bind_eq_ok.mp hcheck
      exact LiveAmong.checked body h hbody
  | .declare _ | .assign _ _ | .ret _ _ | .delete _ | .call _ _ =>
    cases h
    exact ⟨Γ, Γ', hcheck⟩

theorem LiveAmong.checked (ss : List Stmt) {Γ : Scopes Meaning} (h : LiveAmong t ss)
    (hcheck : checkStmts c ret Γ ss = .ok ()) : ∃ Γ Γ', t.check c ret Γ = .ok Γ' := by
  match ss with
  | [] => cases h
  | s :: rest =>
    obtain ⟨Γ₁, hs, hrest⟩ := checkStmts_cons hcheck
    cases h with
    | head h => exact LiveIn.checked s h hs
    | tail hret h => exact LiveAmong.checked rest h (hrest hret)

theorem LiveBranch.checked (bs : Branches) {Γ : Scopes Meaning} (h : LiveBranch t bs)
    (hcheck : bs.check c ret Γ = .ok ()) : ∃ Γ Γ', t.check c ret Γ = .ok Γ' := by
  match bs with
  | .done => cases h
  | .otherwise body =>
    cases h with
    | otherwise h => exact LiveAmong.checked body h hcheck
  | .branch test body rest =>
    obtain ⟨_, _, hcheck⟩ := bind_eq_ok.mp hcheck
    obtain ⟨_, hbody, hrest⟩ := bind_eq_ok.mp hcheck
    cases h with
    | body h => exact LiveAmong.checked body h hbody
    | rest h => exact LiveBranch.checked rest h hrest

end

end Checks

/-- The code of the statement stands somewhere in the routine, with its labels placed. -/
def Sited (d : Declarations) (r : Routine) (s : Stmt) : Prop :=
  ∃ g ds g' place pc, s.generate d g = .ok (ds, g') ∧ Fitted place r pc ds

section Sites

variable {r : Routine} {place : Nat → Nat} {t : Stmt}

mutual

theorem LiveIn.sited {g g' : Generator} {ds : List Directive} {pc : Nat} (s : Stmt)
    (h : LiveIn t s) (hok : s.generate d g = .ok (ds, g')) (hfit : Fitted place r pc ds) :
    Sited d r t := by
  match s with
  | .cond branches =>
    cases h with
    | self => exact ⟨g, ds, g', place, pc, hok, hfit⟩
    | cond h =>
      obtain ⟨⟨body, g₁⟩, hbody, hok⟩ := bind_eq_ok.mp hok
      cases hok
      exact LiveBranch.sited branches h hbody hfit.left.newLabel
  | .loop test body =>
    cases h with
    | self => exact ⟨g, ds, g', place, pc, hok, hfit⟩
    | loop h =>
      obtain ⟨testCode, _, hok⟩ := bind_eq_ok.mp hok
      obtain ⟨⟨inner, g₁⟩, hbody, hok⟩ := bind_eq_ok.mp hok
      cases hok
      exact LiveAmong.sited body h hbody hfit.left.right.jumpIfFalse.2
  | .count var start direction stop body =>
    cases h with
    | self => exact ⟨g, ds, g', place, pc, hok, hfit⟩
    | count h =>
      obtain ⟨startCode, _, hok⟩ := bind_eq_ok.mp hok
      obtain ⟨stopCode, _, hok⟩ := bind_eq_ok.mp hok
      obtain ⟨⟨inner, g₁⟩, hbody, hok⟩ := bind_eq_ok.mp hok
      cases hok
      exact LiveAmong.sited body h hbody hfit.left.left.right.jumpIfFalse.2
  | .declare _ | .assign _ _ | .ret _ _ | .delete _ | .call _ _ =>
    cases h
    exact ⟨g, ds, g', place, pc, hok, hfit⟩

theorem LiveAmong.sited {g g' : Generator} {ds : List Directive} {pc : Nat} (ss : List Stmt)
    (h : LiveAmong t ss) (hok : generateStmts d g ss = .ok (ds, g')) (hfit : Fitted place r pc ds) :
    Sited d r t := by
  match ss with
  | [] => cases h
  | s :: rest =>
    obtain ⟨first, g₁, hfirst, hmore⟩ := generateStmts_cons hok
    cases h with
    | head h =>
      rcases hmore with ⟨_, rfl, _⟩ | ⟨_, more, _, rfl⟩
      · exact LiveIn.sited s h hfirst hfit
      · exact LiveIn.sited s h hfirst hfit.left
    | tail hs h =>
      rcases hmore with ⟨hs', _, _⟩ | ⟨_, more, hmore, rfl⟩
      · rw [hs] at hs'
        cases hs'
      · exact LiveAmong.sited rest h hmore hfit.right

theorem LiveBranch.sited {g g' : Generator} {ds : List Directive} {pc done : Nat} (bs : Branches)
    (h : LiveBranch t bs) (hok : bs.generate d done g = .ok (ds, g'))
    (hfit : Fitted place r pc ds) :
    Sited d r t := by
  match bs with
  | .done => cases h
  | .otherwise body =>
    cases h with
    | otherwise h =>
      obtain ⟨⟨inner, g₁⟩, hbody, hok⟩ := bind_eq_ok.mp hok
      cases hok
      exact LiveAmong.sited body h hbody hfit
  | .branch test body rest =>
    obtain ⟨testCode, _, hok⟩ := bind_eq_ok.mp hok
    obtain ⟨⟨inner, g₁⟩, hbody, hok⟩ := bind_eq_ok.mp hok
    obtain ⟨⟨more, g₂⟩, hmore, hok⟩ := bind_eq_ok.mp hok
    cases hok
    cases h with
    | body h => exact LiveAmong.sited body h hbody hfit.left.left.right.jumpIfFalse.2
    | rest h => exact LiveBranch.sited rest h hmore hfit.right.bind.2

end

/-- The code of a function has the code of each of its live statements in it. -/
theorem FunDecl.sited_of_live {f : FunDecl} (hr : f.compile d = .ok r) (h : LiveAmong t f.body) :
    Sited d r t := by
  obtain ⟨_, _, body, g, place, hbody, hplaced, hlinked⟩ := FunDecl.compile_eq_ok hr
  exact LiveAmong.sited f.body h hbody (Fitted.of_linked hplaced hlinked).left.right

end Sites

end RecordLang

import RecordLang.Proofs.Compile.Expressions
import RecordLang.Proofs.Typing.Statements

/-! # Code of checked statements

The directives of statements that have been checked leave the stack as they find it, wherever they
are generated. On the way the stack grows by no more than there are nodes in the statements and in
the records.
-/

namespace RecordLang

open Generator

mutual

def Stmt.nodes : Stmt → Nat
  | .declare b => b.nodes
  | .assign _ value => value.nodes + 1
  | .cond branches => branches.nodes + 1
  | .loop test body => test.nodes + stmtNodes body + 1
  | .count _ start _ stop body => start.nodes + stop.nodes + stmtNodes body + 1
  | .ret none _ => 1
  | .ret (some value) _ => value.nodes + 1
  | .delete _ => 1
  | .call _ args => argNodes args + 1

def stmtNodes : List Stmt → Nat
  | [] => 0
  | s :: rest => s.nodes + stmtNodes rest

def Branches.nodes : Branches → Nat
  | .done => 0
  | .otherwise body => stmtNodes body
  | .branch test body rest => test.nodes + stmtNodes body + rest.nodes

end

variable {p : Program} {c : Catalog} {arity : String → Option Nat} {top : Nat} {ret : Ty}
  {ds ds' : List Directive}

section Pieces

variable {slots : Scopes Nat} {code enter test next : Code}

theorem storeCode_leads {target : List Ident} (hok : storeCode slots target = .ok code)
    (htop : 2 ≤ top) : Leads arity top 1 (emits code) 0 := by
  cases target with
  | nil => cases hok
  | cons head fields =>
    obtain ⟨slot, _, hok⟩ := bind_eq_ok.mp hok
    split at hok
    next =>
      cases hok
      exact .store (by omega) (.nil (by omega))
    next last _ =>
      cases hok
      rw [emits_append]
      refine (loadPath_leads slot fields.dropLast htop).append ?_
      exact .emit rfl rfl rfl (by omega) rfl htop
        (.emit rfl rfl rfl (by omega) rfl htop (.nil (by omega)))

theorem Leads.loop (henter : Leads arity top 0 (emits enter) 0)
    (htest : Leads arity top 0 (emits test) 1) (hnext : Leads arity top 0 (emits next) 0)
    (h : Leads arity top 0 ds 0) (n : Nat) :
    Leads arity top 0 (.newLabel :: .newLabel :: emits enter ++ .bind n :: emits test ++
      .jumpIfFalse (n + 1) :: ds ++ emits next ++ [.jump n, .bind (n + 1)]) 0 := by
  have hentered : Leads arity top 0 (.newLabel :: .newLabel :: emits enter) 0 :=
    .newLabel (.newLabel henter)
  have htested := hentered.append (.bind n htest)
  have hdone := (htested.append (.jumpIfFalse (n + 1) h)).append hnext
  exact hdone.append (.jump _ (.bind _ (.nil (Nat.zero_le top))))

theorem Leads.branch (htest : Leads arity top 0 (emits test) 1) (h : Leads arity top 0 ds 0)
    {leave : List Directive} (hleave : Leads arity top 0 leave 0) (h' : Leads arity top 0 ds' 0)
    (n : Nat) :
    Leads arity top 0 (.newLabel :: emits test ++ .jumpIfFalse n :: ds ++ leave ++ .bind n :: ds')
      0 := by
  have htested : Leads arity top 0 (.newLabel :: emits test) 1 := .newLabel htest
  have hbody : Leads arity top 1 (.jumpIfFalse n :: ds) 0 := .jumpIfFalse n h
  exact ((htested.append hbody).append hleave).append (.bind n h')

end Pieces

mutual

theorem Stmt.leads (hp : p.Settled c arity) (s : Stmt) {Γ Γ' : Scopes Meaning} {g g' : Generator}
    {ds : List Directive} (hcheck : s.check c ret Γ = .ok Γ')
    (hok : s.generate ⟨c, p.records⟩ g = .ok (ds, g')) (htop : s.nodes + p.recordNodes ≤ top) :
    Leads arity top 0 ds 0 := by
  match s with
  | .declare b =>
    rcases Stmt.check_scopes hcheck with ⟨_, ty, ⟨⟩, _, hty, _⟩ | ⟨hne, _⟩
    · simp only [Stmt.nodes, Binding.nodes] at htop
      obtain ⟨found, hfound, _⟩ := bind_eq_ok.mp hty
      obtain ⟨init, hinit, hok⟩ := bind_eq_ok.mp hok
      cases hok
      rw [emits_append]
      exact (hp.code_adds top hfound hinit 0 (by omega)).append
        (.store (by omega) (.nil (by omega)))
    · exact absurd rfl (hne b)
  | .assign target value =>
    simp only [Stmt.nodes] at htop
    obtain ⟨_, _, hcheck⟩ := bind_eq_ok.mp hcheck
    obtain ⟨found, hfound, _⟩ := bind_eq_ok.mp hcheck
    obtain ⟨code, hcode, hok⟩ := bind_eq_ok.mp hok
    obtain ⟨store, hstore, hok⟩ := bind_eq_ok.mp hok
    cases hok
    have htwo : 2 ≤ top := by
      have := value.nodes_pos
      omega
    rw [emits_append]
    exact (hp.code_adds top hfound hcode 0 (by omega)).append (storeCode_leads hstore htwo)
  | .cond branches =>
    simp only [Stmt.nodes] at htop
    obtain ⟨_, hbranches, _⟩ := bind_eq_ok.mp hcheck
    obtain ⟨⟨body, g₁⟩, hbody, hok⟩ := bind_eq_ok.mp hok
    cases hok
    have hleads := branches.leads hp hbranches hbody (Nat.le_of_succ_le (Nat.succ_add _ _ ▸ htop))
    exact .newLabel (hleads.append (.bind _ (.nil (by omega))))
  | .loop test body =>
    simp only [Stmt.nodes] at htop
    obtain ⟨_, htest, hcheck⟩ := bind_eq_ok.mp hcheck
    obtain ⟨_, hcheckBody, _⟩ := bind_eq_ok.mp hcheck
    obtain ⟨testCode, htestCode, hok⟩ := bind_eq_ok.mp hok
    obtain ⟨⟨inner, g₁⟩, hinner, hok⟩ := bind_eq_ok.mp hok
    cases hok
    have hroom : stmtNodes body + p.recordNodes ≤ top := by omega
    have htested := hp.code_adds top (checkTest_eq_ok htest) htestCode 0 (by omega)
    have hnone : Leads arity top 0 (emits []) 0 := .nil (Nat.zero_le top)
    have hloop := Leads.loop hnone htested hnone
      (generateStmts_leads hp body hcheckBody hinner hroom) g.nextLabel
    simpa using hloop
  | .count var start direction stop body =>
    simp only [Stmt.nodes] at htop
    obtain ⟨_, hstart, hcheck⟩ := bind_eq_ok.mp hcheck
    obtain ⟨_, hstop, hcheck⟩ := bind_eq_ok.mp hcheck
    obtain ⟨_, hcheckBody, _⟩ := bind_eq_ok.mp hcheck
    obtain ⟨startCode, hstartCode, hok⟩ := bind_eq_ok.mp hok
    obtain ⟨stopCode, hstopCode, hok⟩ := bind_eq_ok.mp hok
    obtain ⟨⟨inner, g₁⟩, hinner, hok⟩ := bind_eq_ok.mp hok
    cases hok
    have hpos := start.nodes_pos
    have hpos' := stop.nodes_pos
    have hroom : stmtNodes body + p.recordNodes ≤ top := by omega
    have hstarted := hp.code_adds top (checkBound_eq_ok hstart) hstartCode 0 (by omega)
    have hstopped := hp.code_adds top (checkBound_eq_ok hstop) hstopCode 1 (by omega)
    refine .loop ?_ ?_ ?_ (generateStmts_leads hp body hcheckBody hinner hroom) g.nextLabel
    · rw [emits_append]
      exact hstarted.append (.store (by omega) (.nil (by omega)))
    · rw [emits_append, emits_cons]
      have hloaded : Leads arity top 0 (.emit (.load g.nextSlot) :: emits stopCode) 2 :=
        .load (by omega) hstopped
      exact hloaded.append (.binary (by omega) (.nil (by omega)))
    · have hstep : Leads arity top 1 (emits [.push (.int 1), .binary direction.step]) 1 :=
        .push (by omega) (.binary (by omega) (.nil (by omega)))
      exact .load (by omega) (hstep.append (.store (by omega) (.nil (by omega))))
  | .ret none _ =>
    simp only [Stmt.nodes] at htop
    cases hok
    exact .push (by omega) (.ret (.nil (by omega)))
  | .ret (some value) _ =>
    simp only [Stmt.nodes] at htop
    obtain ⟨_, hreturn, _⟩ := bind_eq_ok.mp hcheck
    obtain ⟨found, hfound, _⟩ := bind_eq_ok.mp hreturn
    obtain ⟨code, hcode, hok⟩ := bind_eq_ok.mp hok
    cases hok
    rw [emits_append]
    exact (hp.code_adds top hfound hcode 0 (by omega)).append (.ret (.nil (by omega)))
  | .delete name =>
    simp only [Stmt.nodes] at htop
    obtain ⟨slot, _, hok⟩ := bind_eq_ok.mp hok
    cases hok
    exact .load (by omega) (.emit rfl rfl rfl (by omega) rfl (by omega) (.nil (by omega)))
  | .call fn args =>
    simp only [Stmt.nodes] at htop
    obtain ⟨ty, hty, _⟩ := bind_eq_ok.mp hcheck
    obtain ⟨code, hcode, hok⟩ := bind_eq_ok.mp hok
    cases hok
    rw [emits_append]
    refine (hp.callCode_adds top hty hcode 0 (by omega)).append ?_
    exact .emit rfl rfl rfl (by omega) rfl (by omega) (.nil (by omega))

theorem generateStmts_leads (hp : p.Settled c arity) (ss : List Stmt) {Γ : Scopes Meaning}
    {g g' : Generator} {ds : List Directive} (hcheck : checkStmts c ret Γ ss = .ok ())
    (hok : generateStmts ⟨c, p.records⟩ g ss = .ok (ds, g'))
    (htop : stmtNodes ss + p.recordNodes ≤ top) : Leads arity top 0 ds 0 := by
  match ss with
  | [] =>
    cases hok
    exact .nil (by omega)
  | s :: rest =>
    obtain ⟨Γ₁, hs, hrest⟩ := checkStmts_cons hcheck
    obtain ⟨first, g₁, hfirst, h⟩ := generateStmts_cons hok
    simp only [stmtNodes] at htop
    have hroom : s.nodes + p.recordNodes ≤ top := by omega
    have hroom' : stmtNodes rest + p.recordNodes ≤ top := by omega
    have hleads := s.leads hp hs hfirst hroom
    rcases h with ⟨_, rfl, rfl⟩ | ⟨hret, more, hmore, rfl⟩
    · exact hleads
    · exact hleads.append (generateStmts_leads hp rest (hrest hret) hmore hroom')

theorem Branches.leads (hp : p.Settled c arity) (bs : Branches) {done : Nat} {Γ : Scopes Meaning}
    {g g' : Generator} {ds : List Directive} (hcheck : bs.check c ret Γ = .ok ())
    (hok : bs.generate ⟨c, p.records⟩ done g = .ok (ds, g'))
    (htop : bs.nodes + p.recordNodes ≤ top) : Leads arity top 0 ds 0 := by
  match bs with
  | .done =>
    cases hok
    exact .nil (by omega)
  | .otherwise body =>
    obtain ⟨⟨inner, g₁⟩, hinner, hok⟩ := bind_eq_ok.mp hok
    cases hok
    exact generateStmts_leads hp body hcheck hinner htop
  | .branch test body rest =>
    simp only [Branches.nodes] at htop
    obtain ⟨_, htest, hcheck⟩ := bind_eq_ok.mp hcheck
    obtain ⟨_, hcheckBody, hcheckRest⟩ := bind_eq_ok.mp hcheck
    obtain ⟨testCode, htestCode, hok⟩ := bind_eq_ok.mp hok
    obtain ⟨⟨inner, g₁⟩, hinner, hok⟩ := bind_eq_ok.mp hok
    obtain ⟨⟨more, g₂⟩, hmore, hok⟩ := bind_eq_ok.mp hok
    cases hok
    have hroom : stmtNodes body + p.recordNodes ≤ top := by omega
    have hroom' : rest.nodes + p.recordNodes ≤ top := by omega
    have htested := hp.code_adds top (checkTest_eq_ok htest) htestCode 0 (by omega)
    refine htested.branch (generateStmts_leads hp body hcheckBody hinner hroom) ?_
      (rest.leads hp hcheckRest hmore hroom') _
    cases rest with
    | done => exact .nil (by omega)
    | otherwise => exact .jump done (.nil (by omega))
    | branch => exact .jump done (.nil (by omega))

end

end RecordLang

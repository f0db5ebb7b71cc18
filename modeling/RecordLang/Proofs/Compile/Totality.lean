import RecordLang.Proofs.Compile.Expressions
import RecordLang.Proofs.Typing.Statements

/-! # Checked programs compile

Every checked function has code, however many variables it has: each variable in scope has a slot,
each record can be made, and the labels of the directives are in order. Whether a frame has as many
slots is left to the check of the code.
-/

namespace RecordLang

open Generator

variable {p : Program} {c : Catalog} {arity : String → Option Nat} {ret : Ty} {f : FunDecl}

theorem Mirrors.hasSlots {Γ : Scopes Meaning} {slots : Scopes Nat} (h : Mirrors c Γ slots) :
    HasSlots Γ slots := fun _ _ hx => h.find? hx

theorem HasSlots.exists_storeCode {Γ : Scopes Meaning} {slots : Scopes Nat} (hs : HasSlots Γ slots)
    {target : List Ident} {ty : Ty} (h : c.targetType Γ target = .ok ty) :
    ∃ code, storeCode slots target = .ok code := by
  obtain ⟨head, fields, ty', rfl, hx, _⟩ := targetType_eq_ok h
  obtain ⟨slot, hslot⟩ := hs.slotOf hx
  cases hlast : fields.getLast? with
  | none => exact ⟨[.store slot], bind_eq_ok.mpr ⟨slot, hslot, by rw [hlast]; rfl⟩⟩
  | some last => exact ⟨_, bind_eq_ok.mpr ⟨slot, hslot, by rw [hlast]; rfl⟩⟩

/-- Directives are made, and their labels are their own but for those in `outer`. -/
def Labels (outer : List Nat) (g : Generator) (x : Generated) : Prop :=
  ∃ ds g' k, x = .ok (ds, g') ∧ OwnLabels g.nextLabel k outer ds ∧
    g'.nextLabel = g.nextLabel + k

section Pieces

variable {g g' : Generator} {x : Generated} {ds : List Directive}

theorem Labels.emits {code : Code} (hx : x = .ok (emits code, g'))
    (hlabel : g'.nextLabel = g.nextLabel) : Labels [] g x :=
  ⟨RecordLang.emits code, g', 0, hx, .emits _ _ _, hlabel⟩

theorem Labels.loop {k : Nat} (enter test next : Code)
    (hx : x = .ok (.newLabel :: .newLabel :: RecordLang.emits enter ++
      .bind g.nextLabel :: RecordLang.emits test ++ .jumpIfFalse (g.nextLabel + 1) :: ds ++
      RecordLang.emits next ++ [.jump g.nextLabel, .bind (g.nextLabel + 1)], g'.pop))
    (hown : OwnLabels (g.nextLabel + 2) k [] ds) (hlabel : g'.nextLabel = g.nextLabel + 2 + k) :
    Labels [] g x := by
  refine ⟨_, g'.pop, k + 2, hx, hown.loop enter test next, ?_⟩
  simp only [Generator.pop, hlabel]
  omega

end Pieces

mutual

theorem Stmt.labels (hp : p.Settled c arity) (s : Stmt) {Γ Γ' : Scopes Meaning} {g : Generator}
    (hcheck : s.check c ret Γ = .ok Γ') (hmir : Mirrors c Γ g.slots) :
    Labels [] g (s.generate ⟨c, p.records⟩ g) := by
  have hs := hmir.hasSlots
  match s with
  | .declare b =>
    rcases Stmt.check_scopes hcheck with ⟨_, ty, ⟨⟩, _, hty, _⟩ | ⟨hne, _⟩
    · obtain ⟨found, hfound, _⟩ := bind_eq_ok.mp hty
      obtain ⟨init, hinit⟩ := hp.exists_code hs hfound
      exact .emits (bind_eq_ok.mpr ⟨init, hinit, rfl⟩) rfl
    · exact absurd rfl (hne b)
  | .assign target value =>
    obtain ⟨expected, hexpected, hcheck⟩ := bind_eq_ok.mp hcheck
    obtain ⟨found, hfound, _⟩ := bind_eq_ok.mp hcheck
    obtain ⟨code, hcode⟩ := hp.exists_code hs hfound
    obtain ⟨store, hstore⟩ := hs.exists_storeCode hexpected
    exact .emits (bind_eq_ok.mpr ⟨code, hcode, bind_eq_ok.mpr ⟨store, hstore, rfl⟩⟩) rfl
  | .cond branches =>
    obtain ⟨_, hbranches, _⟩ := bind_eq_ok.mp hcheck
    obtain ⟨body, g', k, hbody, hown, hlabel⟩ :=
      branches.labels (g := g.takeLabels 1) hp g.nextLabel hbranches hmir
    refine ⟨_, g', k + 1, bind_eq_ok.mpr ⟨_, hbody, rfl⟩, hown.cond, ?_⟩
    rw [hlabel]
    simp only [Generator.takeLabels]
    omega
  | .loop test body =>
    obtain ⟨_, htest, hcheck⟩ := bind_eq_ok.mp hcheck
    obtain ⟨_, hcheckBody, _⟩ := bind_eq_ok.mp hcheck
    obtain ⟨testCode, htestCode⟩ := hp.exists_code hs (checkTest_eq_ok htest)
    obtain ⟨inner, g', k, hinner, hown, hlabel⟩ :=
      generateStmts_labels (g := (g.takeLabels 2).push) hp body hcheckBody hmir.push
    refine .loop [] testCode [] (bind_eq_ok.mpr ⟨_, htestCode, bind_eq_ok.mpr ⟨_, hinner, ?_⟩⟩)
      hown hlabel
    simp [pure, Except.pure]
  | .count var start direction stop body =>
    obtain ⟨_, hstart, hcheck⟩ := bind_eq_ok.mp hcheck
    obtain ⟨_, hstop, hcheck⟩ := bind_eq_ok.mp hcheck
    obtain ⟨_, hcheckBody, _⟩ := bind_eq_ok.mp hcheck
    obtain ⟨startCode, hstartCode⟩ := hp.exists_code hs (checkBound_eq_ok hstart)
    obtain ⟨stopCode, hstopCode⟩ := hp.exists_code hs (checkBound_eq_ok hstop)
    have hmir' : Mirrors c (Γ.push.declare var.text (.variable .int)) (g.countScope var).slots :=
      Scopes.RelAbove.declare hmir.push ⟨.int, rfl⟩
    obtain ⟨inner, g', k, hinner, hown, hlabel⟩ := generateStmts_labels hp body hcheckBody hmir'
    exact .loop _ _ _ (bind_eq_ok.mpr ⟨_, hstartCode, bind_eq_ok.mpr ⟨_, hstopCode,
      bind_eq_ok.mpr ⟨_, hinner, rfl⟩⟩⟩) hown hlabel
  | .ret none _ => exact .emits rfl rfl
  | .ret (some value) _ =>
    obtain ⟨_, hreturn, _⟩ := bind_eq_ok.mp hcheck
    obtain ⟨found, hfound, _⟩ := bind_eq_ok.mp hreturn
    obtain ⟨code, hcode⟩ := hp.exists_code hs hfound
    exact .emits (bind_eq_ok.mpr ⟨code, hcode, rfl⟩) rfl
  | .delete name =>
    obtain ⟨_, hdelete, _⟩ := bind_eq_ok.mp hcheck
    unfold checkDelete at hdelete
    split at hdelete
    next ty hx =>
      obtain ⟨slot, hslot⟩ := hs.slotOf hx
      exact .emits (bind_eq_ok.mpr ⟨slot, hslot, rfl⟩) rfl
    next => cases hdelete
  | .call fn args =>
    obtain ⟨ty, hty, _⟩ := bind_eq_ok.mp hcheck
    obtain ⟨code, hcode⟩ := hp.exists_callCode hs hty
    exact .emits (bind_eq_ok.mpr ⟨code, hcode, rfl⟩) rfl

theorem generateStmts_labels (hp : p.Settled c arity) (ss : List Stmt) {Γ : Scopes Meaning}
    {g : Generator} (hcheck : checkStmts c ret Γ ss = .ok ()) (hmir : Mirrors c Γ g.slots) :
    Labels [] g (generateStmts ⟨c, p.records⟩ g ss) := by
  match ss with
  | [] => exact ⟨[], g, 0, rfl, .emits _ _ [], rfl⟩
  | s :: rest =>
    obtain ⟨Γ₁, hs, hrest⟩ := checkStmts_cons hcheck
    obtain ⟨first, g₁, k, hfirst, hown, hlabel⟩ := s.labels hp hs hmir
    cases hret : s.isReturn with
    | true =>
      refine ⟨first, g₁, k, bind_eq_ok.mpr ⟨_, hfirst, ?_⟩, hown, hlabel⟩
      rw [hret]
      rfl
    | false =>
      obtain ⟨more, g₂, j, hmore, hown', hlabel'⟩ :=
        generateStmts_labels hp rest (hrest hret) (hmir.stmt hs hfirst)
      refine ⟨first ++ more, g₂, k + j, bind_eq_ok.mpr ⟨_, hfirst, ?_⟩,
        hown.append (hlabel ▸ hown'), by omega⟩
      simp only [hret]
      exact bind_eq_ok.mpr ⟨_, hmore, rfl⟩

theorem Branches.labels (hp : p.Settled c arity) (bs : Branches) (done : Nat) {Γ : Scopes Meaning}
    {g : Generator} (hcheck : bs.check c ret Γ = .ok ()) (hmir : Mirrors c Γ g.slots) :
    Labels [done] g (bs.generate ⟨c, p.records⟩ done g) := by
  match bs with
  | .done => exact ⟨[], g, 0, rfl, .emits _ _ [], rfl⟩
  | .otherwise body =>
    obtain ⟨inner, g', k, hinner, hown, hlabel⟩ :=
      generateStmts_labels (g := g.push) hp body hcheck hmir.push
    exact ⟨inner, g'.pop, k, bind_eq_ok.mpr ⟨_, hinner, rfl⟩, hown.weaken _, hlabel⟩
  | .branch test body rest =>
    obtain ⟨_, htest, hcheck⟩ := bind_eq_ok.mp hcheck
    obtain ⟨_, hcheckBody, hcheckRest⟩ := bind_eq_ok.mp hcheck
    obtain ⟨testCode, htestCode⟩ := hp.exists_code hmir.hasSlots (checkTest_eq_ok htest)
    obtain ⟨inner, g₁, k, hinner, hown, hlabel⟩ :=
      generateStmts_labels (g := (g.takeLabels 1).push) hp body hcheckBody hmir.push
    simp only [Generator.takeLabels, Generator.push] at hlabel hown
    have hslots : g₁.pop.slots = g.slots := (generateStmts_advances body hinner).pop_slots rfl
    obtain ⟨more, g₂, j, hmore, hown', hlabel'⟩ :=
      rest.labels (g := g₁.pop) hp done hcheckRest (hslots ▸ hmir)
    simp only [Generator.pop] at hlabel' hown'
    rw [hlabel] at hown'
    refine ⟨_, g₂, k + j + 1, bind_eq_ok.mpr ⟨_, htestCode, bind_eq_ok.mpr ⟨_, hinner,
      bind_eq_ok.mpr ⟨_, hmore, rfl⟩⟩⟩, hown.branch hown' testCode ?_, by omega⟩
    cases rest with
    | done => exact .inl rfl
    | otherwise => exact .inr ⟨done, .head _, rfl⟩
    | branch => exact .inr ⟨done, .head _, rfl⟩

end

section Functions

theorem params_next (params : List Param) (g : Generator) :
    (params.foldl (fun g p => g.declare p.name.text) g).nextSlot = g.nextSlot + params.length ∧
      (params.foldl (fun g p => g.declare p.name.text) g).nextLabel = g.nextLabel := by
  induction params generalizing g with
  | nil => exact ⟨rfl, rfl⟩
  | cons p params ih =>
    obtain ⟨hslot, hlabel⟩ := ih (g.declare p.name.text)
    exact ⟨hslot.trans (Nat.succ_add_eq_add_succ g.nextSlot params.length), hlabel⟩

theorem FunDecl.generator_next (f : FunDecl) :
    f.generator.nextSlot = f.params.length ∧ f.generator.nextLabel = 0 := by
  obtain ⟨hslot, hlabel⟩ := params_next f.params ⟨Scopes.push [], 0, 0⟩
  exact ⟨hslot.trans (Nat.zero_add _), hlabel⟩

def FunDecl.row (f : FunDecl) (body : List Directive) : List Directive :=
  emits f.prologue ++ body ++ emits f.epilogue

theorem FunDecl.exists_row (hp : p.Settled c arity) (hcheck : f.check c = .ok ()) :
    ∃ body g k, generateStmts ⟨c, p.records⟩ f.generator f.body = .ok (body, g) ∧
      OwnLabels 0 k [] (f.row body) := by
  obtain ⟨body, g, k, hbody, hown, _⟩ :=
    generateStmts_labels hp f.body hcheck (f.generator_mirrors c)
  rw [f.generator_next.2] at hown
  refine ⟨body, g, 0 + k + 0, hbody, ?_⟩
  exact ((OwnLabels.emits 0 [] f.prologue).append (by simpa using hown)).append (.emits _ _ _)

theorem FunDecl.exists_routine (hp : p.Settled c arity) (hcheck : f.check c = .ok ()) :
    ∃ r, f.compile ⟨c, p.records⟩ = .ok r := by
  obtain ⟨body, g, k, hbody, hown⟩ := FunDecl.exists_row hp hcheck
  obtain ⟨code, hcode⟩ := hown.exists_assemble
  exact ⟨_, bind_eq_ok.mpr ⟨_, hbody, bind_eq_ok.mpr ⟨code, hcode, rfl⟩⟩⟩

end Functions

end RecordLang

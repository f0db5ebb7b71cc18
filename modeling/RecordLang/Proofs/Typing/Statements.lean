import RecordLang.Proofs.Compile.Slots
import RecordLang.Proofs.Typing.Expressions

/-! # Checked statements are sound

The evaluation of statements that have been checked is sound. Variables keep values of their types,
and what a function returns has the type that the function declares.
-/

namespace RecordLang

open Eval

def EnvTyped (c : Catalog) (σ : List String) : Scopes Meaning → Scopes Value → Prop :=
  Scopes.RelAbove c.globals fun meaning v => ∃ ty, meaning = .variable ty ∧ v.HasType σ ty

def FlowTyped (c : Catalog) (ret : Ty) (Γ : Scopes Meaning) (σ : List String) : Flow → Prop
  | .next env => EnvTyped c σ Γ env
  | .returned v => v.HasType σ ret

variable {c : Catalog} {k : Interp} {bound : Nat} {ret : Ty} {σ σ' : List String}
  {Γ Γ' : Scopes Meaning} {env : Scopes Value}

theorem EnvTyped.mono (h : EnvTyped c σ Γ env) (hσ : σ <+: σ') : EnvTyped c σ' Γ env := by
  apply Scopes.RelAbove.mono _ h
  rintro meaning v ⟨ty, rfl, hv⟩
  exact ⟨ty, rfl, hv.mono hσ⟩

theorem EnvTyped.sees (h : EnvTyped c σ Γ env) : Sees σ Γ env := by
  intro x ty hx
  obtain ⟨v, hv, ty', hty, htyped⟩ := Scopes.RelAbove.find? h hx (c.globals_find?_ne x ty)
  cases hty
  exact ⟨v, hv, htyped⟩

theorem EnvTyped.ne_nil (h : EnvTyped c σ Γ env) : Γ ≠ [] := by
  obtain ⟨inner, rfl, hne, _⟩ := h
  simp [hne]

theorem FlowTyped.leaveBlock {flow : Flow} (h : EnvTyped c σ Γ env)
    (hflow : FlowTyped c ret Γ' σ' flow) (ht : Γ'.tail = Γ) :
    FlowTyped c ret Γ σ' flow.leaveBlock := by
  cases flow with
  | next env' => exact Scopes.RelAbove.pop h hflow ht
  | returned v => exact hflow

section Targets

/-- The last field of a path belongs to the record that the fields before it lead to. -/
theorem walkType_append {ty ty' : Ty} {owner last : Ident} {fields : List Ident}
    (h : c.walkType ty owner (fields ++ [last]) = .ok ty') :
    ∃ r, c.walkType ty owner fields = .ok (.record r) ∧ c.fieldType? r last.text = some ty' := by
  induction fields generalizing ty owner with
  | nil =>
    simp only [List.nil_append, Catalog.walkType] at h
    split at h
    next r =>
      split at h
      next next hnext =>
        cases h
        exact ⟨r, rfl, hnext⟩
      next => cases h
    next => cases h
  | cons field rest ih =>
    simp only [List.cons_append, Catalog.walkType] at h
    split at h
    next r =>
      split at h
      next next hnext =>
        obtain ⟨r', hwalk, hfield⟩ := ih h
        exact ⟨r', by simp only [Catalog.walkType, hnext, hwalk], hfield⟩
      next => cases h
    next => cases h

theorem targetType_eq_ok {target : List Ident} {ty : Ty} (h : c.targetType Γ target = .ok ty) :
    ∃ head fields ty', target = head :: fields ∧ Γ.find? head.text = some (.variable ty') ∧
      c.walkType ty' head fields = .ok ty := by
  cases target with
  | nil => cases h
  | cons head fields =>
    simp only [Catalog.targetType, Catalog.pathType] at h
    split at h
    next => cases h
    next => cases h
    next =>
      split at h
      next ty' hx => exact ⟨head, fields, ty', rfl, hx, h⟩
      next => cases h
      next => cases h

theorem evalStore_sound {target : List Ident} {v : Value} {ty : Ty} (henv : EnvTyped c σ Γ env)
    (h : c.targetType Γ target = .ok ty) (hv : v.HasType σ ty) :
    Sound c σ (evalStore env v target) fun σ env => EnvTyped c σ Γ env := by
  obtain ⟨head, fields, ty', rfl, hx, hwalk⟩ := targetType_eq_ok h
  unfold evalStore
  simp only
  split
  next hlast =>
    obtain rfl := List.getLast?_eq_none_iff.mp hlast
    cases hwalk
    obtain ⟨env', henv', hrel⟩ := Scopes.RelAbove.assign? henv hx (c.globals_find?_ne _ _)
      ⟨ty, rfl, hv⟩
    exact .known henv' hrel
  next last hlast =>
    obtain ⟨init, rfl⟩ := List.getLast?_eq_some_iff.mp hlast
    obtain ⟨r, hinit, hfield⟩ := walkType_append hwalk
    rw [List.dropLast_concat]
    have hpath : c.pathType Γ (head :: init) = .ok (.record r) := by
      simp only [Catalog.pathType, hx, hinit]
    apply (evalPath_sound henv.sees hpath).bind
    intro owner σ₁ hσ₁ howner
    apply (Sound.setField howner hfield (hv.mono hσ₁)).bind
    intro _ σ₂ hσ₂ _
    exact .pure (henv.mono (hσ₁.trans hσ₂))

end Targets

section Turns

variable {test stop : Scopes Value → Eval Value} {body : Scopes Value → Eval Flow}

theorem whileTurn_sound (henv : EnvTyped c σ Γ env)
    (htest : Sound c σ (test env) fun σ v => v.HasType σ .bool)
    (hbody : ∀ σ' env, EnvTyped c σ' Γ.push env →
      Sound c σ' (body env) fun σ flow => ∃ Γ', Γ.push.Grows Γ' ∧ FlowTyped c ret Γ' σ flow) :
    Sound c σ (whileTurn test body env) fun σ =>
      Turn.Holds (EnvTyped c σ Γ) (FlowTyped c ret Γ σ) := by
  apply htest.bind
  intro t σ₁ hσ₁ ht
  apply (Sound.truth ht).bind
  intro holds σ₂ hσ₂ _
  have henv₂ := (henv.mono hσ₁).mono hσ₂
  cases holds with
  | false => exact .pure henv₂
  | true =>
    apply (hbody σ₂ env.push (Scopes.RelAbove.push henv₂)).bind
    rintro flow σ₃ hσ₃ ⟨Γ', hgrows, hflow⟩
    cases flow with
    | returned v => exact .pure hflow
    | next env' => exact .pure (Scopes.RelAbove.pop henv hflow hgrows.tail)

theorem Direction.covers_typed (direction : Direction) {v last : Value} (hv : v.HasType σ .int)
    (hlast : last.HasType σ .int) : Typed σ .bool (direction.covers v last) := by
  unfold Direction.covers
  split <;> exact BinOp.apply_typed hv hlast rfl

theorem Direction.following_typed (direction : Direction) {v : Value} (hv : v.HasType σ .int) :
    Typed σ .int (direction.following v) := by
  unfold Direction.following
  split <;> exact BinOp.apply_typed hv (.int 1) rfl

theorem countTurn_sound {name : String} {direction : Direction} {v : Value}
    (henv : EnvTyped c σ Γ env) (hv : v.HasType σ .int)
    (hstop : Sound c σ (stop env) fun σ v => v.HasType σ .int)
    (hbody : ∀ σ' env, EnvTyped c σ' (Γ.push.declare name (.variable .int)) env →
      Sound c σ' (body env) fun σ flow =>
        ∃ Γ', (Γ.push.declare name (.variable .int)).Grows Γ' ∧ FlowTyped c ret Γ' σ flow) :
    Sound c σ (countTurn name direction stop body (env, v)) fun σ =>
      Turn.Holds (fun s => EnvTyped c σ Γ s.1 ∧ s.2.HasType σ .int) (FlowTyped c ret Γ σ) := by
  apply hstop.bind
  intro last σ₁ hσ₁ hlast
  apply (Sound.lift (direction.covers_typed (hv.mono hσ₁) hlast)).bind
  intro t σ₂ hσ₂ ht
  apply (Sound.truth ht).bind
  intro holds σ₃ hσ₃ _
  have hσ := hσ₁.trans (hσ₂.trans hσ₃)
  have henv₃ := henv.mono hσ
  cases holds with
  | false => exact .pure henv₃
  | true =>
    have hinner : EnvTyped c σ₃ (Γ.push.declare name (.variable .int)) (env.push.declare name v) :=
      Scopes.RelAbove.declare (Scopes.RelAbove.push henv₃) ⟨.int, rfl, hv.mono hσ⟩
    apply (hbody σ₃ _ hinner).bind
    rintro flow σ₄ hσ₄ ⟨Γ', hgrows, hflow⟩
    cases flow with
    | returned v => exact .pure hflow
    | next env' =>
      obtain ⟨u, hfind, hu⟩ := EnvTyped.sees hflow name .int hgrows.find?_declare
      have hknown : Sound c σ₄ (known (env'.find? name)) fun σ u => u.HasType σ .int :=
        .known hfind hu
      apply hknown.bind
      intro u σ₅ hσ₅ hu
      apply (Sound.lift (direction.following_typed hu)).bind
      intro u' σ₆ hσ₆ hu'
      have henv' := EnvTyped.mono hflow (hσ₅.trans hσ₆)
      exact .pure ⟨Scopes.RelAbove.pop henv henv' hgrows.tail, hu'⟩

end Turns

theorem checkTest_eq_ok {violation : Ty → Violation} {test : Expr}
    (h : checkTest c Γ violation test = .ok ()) : test.type c Γ = .ok .bool := by
  obtain ⟨ty, hty, h⟩ := bind_eq_ok.mp h
  split at h
  next hb => exact hb ▸ hty
  next => cases h

theorem checkBound_eq_ok {which : Bound} {e : Expr} (h : checkBound c Γ which e = .ok ()) :
    e.type c Γ = .ok .int := by
  obtain ⟨ty, hty, h⟩ := bind_eq_ok.mp h
  split at h
  next hi => exact hi ▸ hty
  next => cases h

theorem Binding.type_eq_ok {b : Binding} {ty : Ty} (h : b.type c Γ = .ok ty) :
    ∃ found, b.init.type c Γ = .ok found ∧ ty.accepts found = true := by
  obtain ⟨found, hfound, h⟩ := bind_eq_ok.mp h
  refine ⟨found, hfound, ?_⟩
  cases hb : b.declared with
  | some note =>
    simp only [hb] at h
    obtain ⟨_, _, h⟩ := bind_eq_ok.mp h
    split at h
    next hacc =>
      cases h
      exact hacc
    next => cases h
  | none =>
    simp only [hb] at h
    split at h
    next => cases h
    next => cases h
    next =>
      cases h
      simp [Ty.accepts]

theorem Binding.eval_sound (hk : k.Sound c) {b : Binding} {ty : Ty} (hs : Sees σ Γ env)
    (h : b.type c Γ = .ok ty) : Sound c σ (b.init.eval k env) fun σ v => v.HasType σ ty := by
  obtain ⟨found, hfound, hacc⟩ := Binding.type_eq_ok h
  exact (b.init.eval_sound hk hs hfound).imp fun _ _ _ _ _ hv => hv.accepts hacc

mutual

theorem Stmt.eval_sound (hk : k.Sound c) (s : Stmt) {σ : List String} {Γ Γ' : Scopes Meaning}
    {env : Scopes Value} (henv : EnvTyped c σ Γ env) (h : s.check c ret Γ = .ok Γ') :
    Sound c σ (s.eval k bound env) (FlowTyped c ret Γ') := by
  match s with
  | .declare b =>
    rcases Stmt.check_scopes h with ⟨_, ty, hb, _, hty, rfl⟩ | ⟨hne, _⟩
    · cases hb
      apply (Binding.eval_sound hk henv.sees hty).bind
      intro v σ₁ hσ₁ hv
      exact .pure (Scopes.RelAbove.declare (henv.mono hσ₁) ⟨ty, rfl, hv⟩)
    · exact absurd rfl (hne b)
  | .assign target value =>
    obtain ⟨expected, htarget, h⟩ := bind_eq_ok.mp h
    obtain ⟨found, hfound, h⟩ := bind_eq_ok.mp h
    split at h
    next hacc =>
      cases h
      apply (value.eval_sound hk henv.sees hfound).bind
      intro v σ₁ hσ₁ hv
      apply (evalStore_sound (henv.mono hσ₁) htarget (hv.accepts hacc)).bind
      intro env' σ₂ hσ₂ henv'
      exact .pure henv'
    next => cases h
  | .cond branches =>
    obtain ⟨_, hbs, h⟩ := bind_eq_ok.mp h
    cases h
    exact branches.eval_sound hk henv hbs
  | .loop test body =>
    obtain ⟨_, htest, h⟩ := bind_eq_ok.mp h
    obtain ⟨_, hbody, h⟩ := bind_eq_ok.mp h
    cases h
    refine Sound.repeatFor (I := fun σ env => EnvTyped c σ Γ env) ?_ bound henv
    intro σ₁ env₁ _ henv₁
    exact whileTurn_sound henv₁ (test.eval_sound hk henv₁.sees (checkTest_eq_ok htest))
      fun σ₂ env₂ henv₂ => evalStmts_sound hk body henv₂ hbody
  | .count var start direction stop body =>
    obtain ⟨_, hstart, h⟩ := bind_eq_ok.mp h
    obtain ⟨_, hstop, h⟩ := bind_eq_ok.mp h
    obtain ⟨_, hbody, h⟩ := bind_eq_ok.mp h
    cases h
    apply (start.eval_sound hk henv.sees (checkBound_eq_ok hstart)).bind
    intro v σ₀ hσ₀ hv
    refine Sound.repeatFor (I := fun σ s => EnvTyped c σ Γ s.1 ∧ s.2.HasType σ .int) ?_ bound
      ⟨henv.mono hσ₀, hv⟩
    rintro σ₁ ⟨env₁, v₁⟩ _ ⟨henv₁, hv₁⟩
    exact countTurn_sound henv₁ hv₁ (stop.eval_sound hk henv₁.sees (checkBound_eq_ok hstop))
      fun σ₂ env₂ henv₂ => evalStmts_sound hk body henv₂ hbody
  | .ret none p =>
    obtain ⟨_, _, h⟩ := bind_eq_ok.mp h
    cases h
    exact .pure (.nil _)
  | .ret (some value) p =>
    obtain ⟨_, hret, h⟩ := bind_eq_ok.mp h
    cases h
    obtain ⟨ty, hty, hret⟩ := bind_eq_ok.mp hret
    split at hret
    next hacc =>
      have hacc : ret.accepts ty = true := by
        simp only [Ty.accepts, Bool.or_eq_true, decide_eq_true_eq] at hacc ⊢
        exact hacc.imp_right Eq.symm
      apply (value.eval_sound hk henv.sees hty).bind
      intro v σ₁ hσ₁ hv
      exact .pure (hv.accepts hacc)
    next => cases hret
  | .delete name =>
    obtain ⟨_, hdel, h⟩ := bind_eq_ok.mp h
    cases h
    unfold checkDelete at hdel
    split at hdel
    next ty hfind =>
      split at hdel
      next hrec =>
        obtain ⟨r, rfl⟩ : ∃ r, ty = .record r := by
          cases ty <;> first | exact ⟨_, rfl⟩ | cases hrec
        obtain ⟨v, hv, hty⟩ := henv.sees _ _ hfind
        have hknown : Sound c σ (known (env.find? name.text)) fun σ v => v.HasType σ (.record r) :=
          .known hv hty
        apply hknown.bind
        intro u σ₁ hσ₁ hu
        apply (Sound.free hu).bind
        intro _ σ₂ hσ₂ _
        exact .pure (henv.mono (hσ₁.trans hσ₂))
      next => cases hdel
    next => cases hdel
  | .call fn args =>
    obtain ⟨ty, hcall, h⟩ := bind_eq_ok.mp h
    cases h
    obtain ⟨callee, hcallee, hlen, hargs, rfl⟩ := callType_eq_ok hcall
    apply (evalArgs_sound hk args henv.sees hargs hlen).bind
    intro values σ₁ hσ₁ hvalues
    apply (hk.apply hcallee hvalues).bind
    intro _ σ₂ hσ₂ _
    exact .pure (henv.mono (hσ₁.trans hσ₂))

/-- The scopes behind a row of statements are those before it with more names. -/
theorem evalStmts_sound (hk : k.Sound c) (ss : List Stmt) {σ : List String} {Γ : Scopes Meaning}
    {env : Scopes Value} (henv : EnvTyped c σ Γ env) (h : checkStmts c ret Γ ss = .ok ()) :
    Sound c σ (evalStmts k bound env ss) fun σ flow =>
      ∃ Γ', Γ.Grows Γ' ∧ FlowTyped c ret Γ' σ flow := by
  match ss with
  | [] => exact .pure ⟨Γ, .refl henv.ne_nil, henv⟩
  | s :: rest =>
    obtain ⟨Γ₁, hs, hrest⟩ := checkStmts_cons h
    have hgrows := Stmt.check_grows hs henv.ne_nil
    -- only statements that are not a `return` lead to what has been checked behind them
    have hfirst : Sound c σ (s.eval k bound env) fun σ flow =>
        (s.isReturn = true → ∃ v, flow = .returned v) ∧ FlowTyped c ret Γ₁ σ flow :=
      (s.eval_sound hk henv hs).imp fun σ' flow w w' hdone hflow =>
        ⟨fun hret => Stmt.eval_isReturn hret hdone, hflow⟩
    apply hfirst.bind
    rintro flow σ₁ hσ₁ ⟨hret, hflow⟩
    cases flow with
    | returned v => exact .pure ⟨Γ₁, hgrows, hflow⟩
    | next env₁ =>
      cases hr : s.isReturn with
      | true =>
        obtain ⟨v, hv⟩ := hret hr
        cases hv
      | false =>
        refine (evalStmts_sound hk rest hflow (hrest hr)).imp ?_
        rintro σ₂ flow w w' _ ⟨Γ', hgrows', hflow'⟩
        exact ⟨Γ', hgrows.trans hgrows', hflow'⟩

theorem Branches.eval_sound (hk : k.Sound c) (bs : Branches) {σ : List String}
    {Γ : Scopes Meaning} {env : Scopes Value} (henv : EnvTyped c σ Γ env)
    (h : bs.check c ret Γ = .ok ()) : Sound c σ (bs.eval k bound env) (FlowTyped c ret Γ) := by
  match bs with
  | .done => exact .pure henv
  | .otherwise body =>
    apply (evalStmts_sound hk body (Scopes.RelAbove.push henv) h).bind
    rintro flow σ₁ hσ₁ ⟨Γ', hgrows, hflow⟩
    exact .pure (hflow.leaveBlock henv hgrows.tail)
  | .branch test body rest =>
    obtain ⟨_, htest, h⟩ := bind_eq_ok.mp h
    obtain ⟨_, hbody, h⟩ := bind_eq_ok.mp h
    apply (test.eval_sound hk henv.sees (checkTest_eq_ok htest)).bind
    intro t σ₁ hσ₁ ht
    apply (Sound.truth ht).bind
    intro holds σ₂ hσ₂ _
    have henv₂ := henv.mono (hσ₁.trans hσ₂)
    cases holds with
    | false => exact rest.eval_sound hk henv₂ h
    | true =>
      apply (evalStmts_sound hk body (Scopes.RelAbove.push henv₂) hbody).bind
      rintro flow σ₃ hσ₃ ⟨Γ', hgrows, hflow⟩
      exact .pure (hflow.leaveBlock henv hgrows.tail)

end

end RecordLang

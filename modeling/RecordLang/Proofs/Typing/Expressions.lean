import Mathlib.Data.List.Forall2
import RecordLang.Proofs.Evaluation.Tree
import RecordLang.Proofs.Except
import RecordLang.Proofs.Typing.Evaluation
import RecordLang.Typing.Stmt

/-! # Checked expressions are sound

The evaluation of an expression that has been checked is sound, and its value has the type that
checking found. Calls and constructions are taken to be sound.
-/

namespace RecordLang

open Eval

/-- Calls and constructions yield values of the types that the catalog says. -/
structure Interp.Sound (c : Catalog) (k : Interp) : Prop where
  call : ∀ {σ : List String} {name : String} {sig : Signature} {args : List Value},
    c.fun? name = some sig →
    List.Forall₂ (fun v (param : String × Ty) => Value.HasType σ v param.2) args sig.params →
    Eval.Sound c σ (k.call name args) fun σ v => v.HasType σ sig.ret
  construct : ∀ {σ : List String} {r : String}, c.hasRecord r = true →
    Eval.Sound c σ (k.construct r) fun σ v => v.HasType σ (.record r)

def Sees (σ : List String) (Γ : Scopes Meaning) (env : Scopes Value) : Prop :=
  ∀ x ty, Γ.find? x = some (.variable ty) → ∃ v, env.find? x = some v ∧ v.HasType σ ty

def Demand.Meets (σ : List String) (v : Value) : Demand → Prop
  | .any => True
  | .exactly _ ty | .param _ _ ty => v.HasType σ ty

variable {c : Catalog} {k : Interp} {σ σ' : List String} {Γ : Scopes Meaning} {env : Scopes Value}

theorem Sees.mono (h : Sees σ Γ env) (hσ : σ <+: σ') : Sees σ' Γ env := by
  intro x ty hx
  obtain ⟨v, hv, hty⟩ := h x ty hx
  exact ⟨v, hv, hty.mono hσ⟩

theorem Demand.meets_of_type {v : Value} {demand : Demand} {ty : Ty} (hv : v.HasType σ ty)
    (h : demand.violation? ty = none) : demand.Meets σ v := by
  cases demand with
  | any => trivial
  | exactly _ ty' =>
    simp only [Demand.violation?, ite_eq_left_iff, reduceCtorEq, imp_false, not_not] at h
    exact h ▸ hv
  | param _ _ ty' =>
    simp only [Demand.violation?, ite_eq_left_iff, reduceCtorEq, imp_false, not_not] at h
    exact hv.accepts h

theorem walk_sound {v : Value} {owner : Ident} {fields : List Ident} {ty ty' : Ty}
    (hv : v.HasType σ ty) (h : c.walkType ty owner fields = .ok ty') :
    Sound c σ (walk v fields) fun σ u => u.HasType σ ty' := by
  induction fields generalizing σ v owner ty with
  | nil =>
    cases h
    exact .pure hv
  | cons field rest ih =>
    unfold Catalog.walkType at h
    split at h
    next r =>
      split at h
      next next hnext =>
        apply (Sound.getField hv hnext).bind
        intro u σ' hσ hu
        exact ih hu h
      next => cases h
    next => cases h

theorem evalPath_sound {names : List Ident} {ty : Ty} (hs : Sees σ Γ env)
    (h : c.pathType Γ names = .ok ty) :
    Sound c σ (evalPath env names) fun σ v => v.HasType σ ty := by
  cases names with
  | nil => cases h
  | cons head fields =>
    simp only [Catalog.pathType] at h
    split at h
    next ty' hx =>
      obtain ⟨v, hv, hty⟩ := hs _ _ hx
      have hknown : Sound c σ (known (env.find? head.text)) fun σ v => v.HasType σ ty' :=
        .known hv hty
      apply hknown.bind
      intro u σ' hσ hu
      exact walk_sound hu h
    next => cases h
    next => cases h

theorem negate_sound {negated : Bool} {p : Position} {v : Value} {ty ty' : Ty}
    (hv : v.HasType σ ty) (h : negatedType negated p ty = .ok ty') :
    Sound c σ (negate negated v) fun σ u => u.HasType σ ty' := by
  cases negated with
  | false =>
    cases h
    exact .pure hv
  | true =>
    unfold negatedType at h
    split at h
    next => cases h
    next hb =>
      cases h
      obtain rfl : ty = .bool := by simpa using hb
      exact .lift (Value.not_typed hv)

theorem Builtin.eval_sound (b : Builtin) {args : List Value}
    (h : List.Forall₂ (fun v demand => Demand.Meets σ v demand) args b.demands) :
    Sound c σ (b.eval args) fun σ v => v.HasType σ b.ret := by
  cases b with
  | print =>
    obtain _ | ⟨_, _ | _⟩ := h
    apply (Sound.write _).bind
    intro _ σ' _ _
    exact .pure (.nil _)
  | read =>
    obtain _ | _ := h
    exact .read
  | length =>
    obtain _ | ⟨hv, _ | _⟩ := h
    exact .lift (Value.length_typed hv)
  | get =>
    obtain _ | ⟨hindex, _ | ⟨htext, _ | _⟩⟩ := h
    cases htext with
    | nil => exact fun _ _ => rfl
    | string s =>
      cases hindex with
      | nil => exact fun _ _ => rfl
      | int n => exact .lift (Value.charAt_typed s n)
  | stoi =>
    obtain _ | ⟨hv, _ | _⟩ := h
    exact .lift (Value.toInt_typed hv (.inl rfl))
  | dtoi =>
    obtain _ | ⟨hv, _ | _⟩ := h
    exact .lift (Value.toInt_typed hv (.inr rfl))
  | stod =>
    obtain _ | ⟨hv, _ | _⟩ := h
    exact .lift (Value.toDouble_typed hv (.inl rfl))
  | itod =>
    obtain _ | ⟨hv, _ | _⟩ := h
    exact .lift (Value.toDouble_typed hv (.inr rfl))
  | itos =>
    obtain _ | ⟨hv, _ | _⟩ := h
    exact .lift (Value.toText_typed hv rfl)
  | dtos =>
    obtain _ | ⟨hv, _ | _⟩ := h
    exact .lift (Value.toText_typed hv rfl)

theorem Interp.Sound.apply (hk : k.Sound c) {fn : String} {callee : Callee} {args : List Value}
    (hc : c.callee? fn = some callee)
    (h : List.Forall₂ (fun v demand => Demand.Meets σ v demand) args callee.demands) :
    Eval.Sound c σ (k.apply fn args) fun σ v => v.HasType σ callee.ret := by
  unfold Catalog.callee? at hc
  unfold Interp.apply
  cases hb : Builtin.ofName? fn with
  | some b =>
    simp only [hb] at hc ⊢
    cases hc
    exact b.eval_sound h
  | none =>
    simp only [hb] at hc ⊢
    obtain ⟨sig, hsig, rfl⟩ := Option.map_eq_some_iff.mp hc
    refine hk.call hsig ?_
    simpa [List.forall₂_map_right_iff, Demand.Meets] using h

theorem checkArgs_cons {arg : Expr} {args : List Expr} {demand : Demand} {demands : List Demand}
    (h : checkArgs c Γ (arg :: args) (demand :: demands) = .ok ()) :
    ∃ found, arg.type c Γ = .ok found ∧ demand.violation? found = none ∧
      checkArgs c Γ args demands = .ok () := by
  obtain ⟨found, hfound, h⟩ := bind_eq_ok.mp h
  refine ⟨found, hfound, ?_⟩
  cases hv : demand.violation? found with
  | some violation =>
    rw [hv] at h
    cases h
  | none =>
    rw [hv] at h
    exact ⟨rfl, h⟩

theorem callType_eq_ok {fn : Ident} {args : List Expr} {ty : Ty}
    (h : callType c Γ fn args = .ok ty) :
    ∃ callee, c.callee? fn.text = some callee ∧ args.length = callee.demands.length ∧
      checkArgs c Γ args callee.demands = .ok () ∧ ty = callee.ret := by
  unfold callType Term.type at h
  split at h
  next => cases h
  next callee hcallee =>
    split at h
    next => cases h
    next hlen =>
      obtain ⟨_, hargs, h⟩ := bind_eq_ok.mp h
      cases h
      exact ⟨callee, hcallee, by simpa using hlen, hargs, rfl⟩

theorem Literal.eval_hasType (σ : List String) (l : Literal) : l.eval.HasType σ l.type := by
  cases l <;> constructor

mutual

theorem Expr.eval_sound (hk : k.Sound c) (e : Expr) {σ : List String} {ty : Ty} (hs : Sees σ Γ env)
    (h : e.type c Γ = .ok ty) : Sound c σ (e.eval k env) fun σ v => v.HasType σ ty := by
  match e with
  | .single negated first p =>
    obtain ⟨t, ht, h⟩ := bind_eq_ok.mp h
    apply (first.eval_sound hk hs ht).bind
    intro v σ' hσ hv
    exact negate_sound hv h
  | .chain negated first op opPos rest p =>
    obtain ⟨left, hleft, h⟩ := bind_eq_ok.mp h
    obtain ⟨right, hright, h⟩ := bind_eq_ok.mp h
    cases hop : op.type? left right with
    | none =>
      rw [hop] at h
      cases h
    | some t =>
      rw [hop] at h
      apply (first.eval_sound hk hs hleft).bind
      intro a σ₁ hσ₁ ha
      apply (rest.eval_sound hk (hs.mono hσ₁) hright).bind
      intro b σ₂ hσ₂ hb
      apply (Sound.lift (BinOp.apply_typed (ha.mono hσ₂) hb hop)).bind
      intro v σ₃ hσ₃ hv
      exact negate_sound hv h

theorem Term.eval_sound (hk : k.Sound c) (t : Term) {σ : List String} {ty : Ty} (hs : Sees σ Γ env)
    (h : t.type c Γ = .ok ty) : Sound c σ (t.eval k env) fun σ v => v.HasType σ ty := by
  match t with
  | .literal l p =>
    cases h
    exact .pure (l.eval_hasType σ)
  | .construct r =>
    unfold Term.type at h
    split at h
    next hr =>
      cases h
      exact hk.construct hr
    next => cases h
  | .path names => exact evalPath_sound hs h
  | .call fn args =>
    obtain ⟨callee, hcallee, hlen, hargs, rfl⟩ := callType_eq_ok h
    apply (evalArgs_sound hk args hs hargs hlen).bind
    intro values σ' hσ hvalues
    exact hk.apply hcallee hvalues
  | .neg operand p =>
    obtain ⟨t, ht, h⟩ := bind_eq_ok.mp h
    split at h
    next hnum =>
      cases h
      apply (operand.eval_sound hk hs ht).bind
      intro v σ' hσ hv
      exact .lift (Value.neg_typed hv hnum)
    next => cases h
  | .paren inner => exact inner.eval_sound hk hs h

theorem evalArgs_sound (hk : k.Sound c) (args : List Expr) {σ : List String}
    {demands : List Demand} (hs : Sees σ Γ env) (h : checkArgs c Γ args demands = .ok ())
    (hlen : args.length = demands.length) :
    Sound c σ (evalArgs k env args) fun σ values =>
      List.Forall₂ (fun v demand => Demand.Meets σ v demand) values demands := by
  match args, demands with
  | [], [] => exact .pure .nil
  | [], _ :: _ => cases hlen
  | _ :: _, [] => cases hlen
  | arg :: args, demand :: demands =>
    obtain ⟨found, hfound, hv, hrest⟩ := checkArgs_cons h
    apply (arg.eval_sound hk hs hfound).bind
    intro v σ₁ hσ₁ hty
    apply (evalArgs_sound hk args (hs.mono hσ₁) hrest (Nat.succ.inj hlen)).bind
    intro values σ₂ hσ₂ hvalues
    exact .pure (.cons (Demand.meets_of_type (hty.mono hσ₂) hv) hvalues)

end

end RecordLang

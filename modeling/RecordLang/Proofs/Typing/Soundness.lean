import RecordLang.Proofs.Evaluation.Program
import RecordLang.Proofs.Typing.Declarations
import RecordLang.Proofs.Typing.Statements

/-! # Checked programs are sound

The functions of a checked program return values of the types that they declare, and the records it
makes have the fields that are declared, with values of their types. A checked program does not get
stuck, and it fails for dynamic causes only.
-/

namespace RecordLang

open Eval

variable {c : Catalog} {k : Interp} {σ : List String}

theorem params_typed {params : List Param} {args : List Value} {Γ : Scopes Meaning}
    {env : Scopes Value} (henv : EnvTyped c σ Γ env)
    (hargs : List.Forall₂ (fun v (p : Param) => Value.HasType σ v p.note.ty) args params) :
    EnvTyped c σ (params.foldl (fun s p => s.declare p.name.text (.variable p.note.ty)) Γ)
      ((params.zip args).foldl (fun env (p, v) => env.declare p.name.text v) env) := by
  induction hargs generalizing Γ env with
  | nil => exact henv
  | @cons v p args params hv _ ih => exact ih (Scopes.RelAbove.declare henv ⟨p.note.ty, rfl, hv⟩)

theorem FunDecl.eval_sound (hk : k.Sound c) {bound : Nat} {f : FunDecl} {args : List Value}
    (h : f.check c = .ok ())
    (hargs : List.Forall₂ (fun v (param : String × Ty) => Value.HasType σ v param.2) args
      f.signature.params) :
    Sound c σ (f.eval k bound args) fun σ v => v.HasType σ f.ret.ty := by
  have hparams : List.Forall₂ (fun v (p : Param) => Value.HasType σ v p.note.ty) args f.params := by
    simpa [FunDecl.signature, List.forall₂_map_right_iff] using hargs
  have henv : EnvTyped c σ (f.scopes c) (f.bindArgs args) :=
    params_typed ⟨[[]], rfl, nofun, .cons .nil .nil⟩ hparams
  apply (evalStmts_sound hk f.body henv h).bind
  rintro flow σ₁ hσ₁ ⟨Γ', _, hflow⟩
  cases flow with
  | next env => exact .pure (.nil _)
  | returned v => exact .pure hflow

theorem initFields_sound (hk : k.Sound c) {owner : Value} {r : String} {bs : List Binding}
    (howner : owner.HasType σ (.record r))
    (h : ∀ b ∈ bs, ∃ ty, c.fieldType? r b.name.text = some ty ∧ b.type c c.globals = .ok ty) :
    Sound c σ (initFields k owner bs) fun _ _ => True := by
  induction bs generalizing σ with
  | nil => exact .pure trivial
  | cons b bs ih =>
    obtain ⟨ty, hfield, hty⟩ := h b (.head _)
    have hnone : Sees σ c.globals [] := fun x ty hx => absurd hx (c.globals_find?_ne x ty)
    apply (Binding.eval_sound hk hnone hty).bind
    intro v σ₁ hσ₁ hv
    apply (Sound.setField (howner.mono hσ₁) hfield hv).bind
    intro _ σ₂ hσ₂ _
    exact ih (howner.mono (hσ₁.trans hσ₂)) fun b' hb' => h b' (.tail _ hb')

theorem RecordDecl.eval_sound (hk : k.Sound c) {d : RecordDecl} {fields : Table Ty}
    (hfields : c.fields? d.name.text = some fields) (h : FieldsTyped c d.fields fields) :
    Sound c σ (d.eval k) fun σ v => v.HasType σ (.record d.name.text) := by
  have halloc : Sound c σ (alloc (d.fields.map (·.name.text))) fun σ v =>
      v.HasType σ (.record d.name.text) := h.names ▸ .alloc hfields
  apply halloc.bind
  intro owner σ₁ hσ₁ howner
  have htypes : ∀ b ∈ d.fields, ∃ ty, c.fieldType? d.name.text b.name.text = some ty ∧
      b.type c c.globals = .ok ty := by
    intro b hb
    obtain ⟨ty, hget, hty⟩ := h.types b hb
    exact ⟨ty, by simp [Catalog.fieldType?, hfields, hget], hty⟩
  apply (initFields_sound hk howner htypes).bind
  intro _ σ₂ hσ₂ _
  exact .pure (howner.mono hσ₂)

namespace Program

variable {p : Program}

/-- Calls and constructions of a checked program are sound, however deep they nest. -/
theorem interp_sound (hp : p.Declared c) (hfuns : ∀ f ∈ p.funs, f.check c = .ok ()) (n : Nat) :
    (p.interp n).Sound c := by
  induction n with
  | zero => exact ⟨fun _ _ _ _ => trivial, fun _ _ _ => trivial⟩
  | succ n ih =>
    refine ⟨?_, ?_⟩
    · intro σ name sig args hsig hargs
      obtain ⟨f, hf, rfl, rfl⟩ := hp.fun?_eq_some_iff.mp hsig
      have hlen : args.length = f.params.length := by
        simpa [FunDecl.signature] using hargs.length_eq
      simp only [interp, hp.find_fun hf, hlen, if_true]
      exact FunDecl.eval_sound ih (hfuns f hf) hargs
    · intro σ r hr
      obtain ⟨d, hd, rfl⟩ := hp.hasRecord_iff.mp hr
      obtain ⟨fields, hfields, htyped⟩ := hp.fields d hd
      simp only [interp, (hp.find_record hd).1]
      exact RecordDecl.eval_sound ih hfields htyped

/-- A checked program does not get stuck, and it fails for dynamic causes only. -/
theorem eval_sound (h : p.check = .ok c) (bound : Nat) :
    Sound c [] (p.eval bound) fun _ v => v = .nil := by
  obtain ⟨hp, _, ⟨sig, hmain, hparams, hret⟩, hfuns⟩ := check_eq_ok h
  have hcall : Sound c [] (p.eval bound) fun σ v => v.HasType σ sig.ret :=
    (interp_sound hp hfuns bound).call hmain (hparams ▸ .nil)
  refine hcall.imp fun σ' v w w' _ hv => ?_
  rw [hret] at hv
  cases hv
  rfl

end Program

end RecordLang

import RecordLang.Proofs.Typing.Declarations

/-! # Catalogs that agree

Checking asks a catalog for the fields of a record and for the signature of a function by name. Two
catalogs that give the same answers accept the same expressions, statements and functions, whatever
the order of their entries.
-/

namespace RecordLang

structure Catalog.Agrees (c c' : Catalog) : Prop where
  fields : ∀ r, c'.fields? r = c.fields? r
  funs : ∀ f, c'.fun? f = c.fun? f

namespace Catalog.Agrees

variable {c c' : Catalog}

theorem hasRecord (h : c.Agrees c') (r : String) : c'.hasRecord r = c.hasRecord r :=
  congrArg Option.isSome (h.fields r)

theorem callee? (h : c.Agrees c') (name : String) : c'.callee? name = c.callee? name := by
  simp only [Catalog.callee?, h.funs]

theorem checkVariableType (h : c.Agrees c') (note : TypeNote) :
    c'.checkVariableType note = c.checkVariableType note :=
  checkVariableType_congr h.hasRecord note

theorem walkType (h : c.Agrees c') (fields : List Ident) (ty : Ty) (owner : Ident) :
    c'.walkType ty owner fields = c.walkType ty owner fields := by
  induction fields generalizing ty owner with
  | nil => simp only [Catalog.walkType]
  | cons field rest ih => simp only [Catalog.walkType, Catalog.fieldType?, h.fields, ih]

theorem globals_find? (h : c.Agrees c') (x : String) :
    c'.globals.find? x = c.globals.find? x := by
  have hfuns : c'.funs.get? x = c.funs.get? x := h.funs x
  have hrecords : c'.records.get? x = c.records.get? x := h.fields x
  simp only [globals, Scopes.find?, Table.get?_append, Table.get?_map_const, hfuns, hrecords]

end Catalog.Agrees

open Catalog

section Expressions

variable {c c' : Catalog} {Γ Γ' : Scopes Meaning}

theorem Catalog.Agrees.pathType (hc : c.Agrees c') (hΓ : ∀ x, Γ'.find? x = Γ.find? x)
    (names : List Ident) : c'.pathType Γ' names = c.pathType Γ names := by
  cases names with
  | nil => rfl
  | cons head fields => simp only [Catalog.pathType, hΓ, hc.walkType]

theorem Catalog.Agrees.targetType (hc : c.Agrees c') (hΓ : ∀ x, Γ'.find? x = Γ.find? x)
    (target : List Ident) : c'.targetType Γ' target = c.targetType Γ target := by
  cases target with
  | nil => rfl
  | cons head fields => simp only [Catalog.targetType, hΓ, hc.pathType hΓ]

mutual

theorem Expr.type_agree (hc : c.Agrees c') (hΓ : ∀ x, Γ'.find? x = Γ.find? x) (e : Expr) :
    e.type c' Γ' = e.type c Γ := by
  match e with
  | .single negated first p => simp only [Expr.type, first.type_agree hc hΓ]
  | .chain negated first op opPos rest p =>
    simp only [Expr.type, first.type_agree hc hΓ, rest.type_agree hc hΓ]

theorem Term.type_agree (hc : c.Agrees c') (hΓ : ∀ x, Γ'.find? x = Γ.find? x) (t : Term) :
    t.type c' Γ' = t.type c Γ := by
  match t with
  | .literal v p => rfl
  | .construct r => simp only [Term.type, hc.hasRecord]
  | .path names => exact hc.pathType hΓ names
  | .call fn args => simp only [Term.type, hc.callee?, checkArgs_agree hc hΓ args]
  | .neg operand p => simp only [Term.type, operand.type_agree hc hΓ]
  | .paren inner => exact inner.type_agree hc hΓ

theorem checkArgs_agree (hc : c.Agrees c') (hΓ : ∀ x, Γ'.find? x = Γ.find? x)
    (args : List Expr) (demands : List Demand) :
    checkArgs c' Γ' args demands = checkArgs c Γ args demands := by
  match args, demands with
  | [], _ => rfl
  | _ :: _, [] => rfl
  | arg :: args, demand :: demands =>
    simp only [checkArgs, arg.type_agree hc hΓ, checkArgs_agree hc hΓ args]

end

theorem Binding.type_agree (hc : c.Agrees c') (hΓ : ∀ x, Γ'.find? x = Γ.find? x) (b : Binding) :
    b.type c' Γ' = b.type c Γ := by
  simp only [Binding.type, b.init.type_agree hc hΓ, hc.checkVariableType]

theorem Catalog.Agrees.fieldTypes (hc : c.Agrees c') (record : String) (bs : List Binding)
    (earlier : Table Ty) : c'.fieldTypes record earlier bs = c.fieldTypes record earlier bs := by
  induction bs generalizing earlier with
  | nil => rfl
  | cons b rest ih => simp only [Catalog.fieldTypes, b.type_agree hc hc.globals_find?, ih]

theorem Catalog.Agrees.entryOf (hc : c.Agrees c') {d : RecordDecl} {entry : String × Table Ty}
    (h : c.EntryOf d entry) : c'.EntryOf d entry :=
  ⟨h.1, (hc.fieldTypes _ _ _).trans h.2⟩

end Expressions

/-- The same scopes have been opened above the names of both catalogs. -/
def Alike (c c' : Catalog) (Γ Γ' : Scopes Meaning) : Prop :=
  ∃ inner : Scopes Meaning, inner ≠ [] ∧ Γ = inner ++ c.globals ∧ Γ' = inner ++ c'.globals

section Statements

variable {c c' : Catalog} {ret : Ty} {Γ Γ' : Scopes Meaning}

theorem Alike.push (h : Alike c c' Γ Γ') : Alike c c' Γ.push Γ'.push := by
  obtain ⟨inner, _, rfl, rfl⟩ := h
  exact ⟨inner.push, nofun, rfl, rfl⟩

theorem Alike.declare (h : Alike c c' Γ Γ') (x : String) (m : Meaning) :
    Alike c c' (Γ.declare x m) (Γ'.declare x m) := by
  obtain ⟨inner, hne, rfl, rfl⟩ := h
  exact ⟨inner.declare x m, inner.declare_ne_nil x m hne, inner.declare_append _ x m hne,
    inner.declare_append _ x m hne⟩

theorem Alike.find? (hc : c.Agrees c') (h : Alike c c' Γ Γ') (x : String) :
    Γ'.find? x = Γ.find? x := by
  obtain ⟨inner, _, rfl, rfl⟩ := h
  rw [Scopes.find?_append, Scopes.find?_append, hc.globals_find?]

theorem Alike.declaredHere (h : Alike c c' Γ Γ') (x : String) :
    Γ'.declaredHere x = Γ.declaredHere x := by
  obtain ⟨inner, hne, rfl, rfl⟩ := h
  cases inner with
  | nil => exact absurd rfl hne
  | cons t inner => rfl

theorem checkReturn_agree (hc : c.Agrees c') (hΓ : ∀ x, Γ'.find? x = Γ.find? x) (p : Position)
    (value : Option Expr) : checkReturn c' ret Γ' p value = checkReturn c ret Γ p value := by
  cases value with
  | none => rfl
  | some value => simp only [checkReturn, value.type_agree hc hΓ]

mutual

theorem Stmt.check_alike (hc : c.Agrees c') (s : Stmt) {Γ Γ' Γ₁ : Scopes Meaning}
    (hΓ : Alike c c' Γ Γ') (h : s.check c ret Γ = .ok Γ₁) :
    ∃ Γ₁', s.check c' ret Γ' = .ok Γ₁' ∧ Alike c c' Γ₁ Γ₁' := by
  have hfind := hΓ.find? hc
  rcases Stmt.check_scopes h with ⟨b, ty, rfl, hnew, hty, rfl⟩ | ⟨hs, rfl⟩
  · refine ⟨_, ?_, hΓ.declare b.name.text (.variable ty)⟩
    rw [Stmt.check, hΓ.declaredHere, hnew]
    exact bind_eq_ok.mpr ⟨ty, (b.type_agree hc hfind).trans hty, rfl⟩
  · -- the scopes stay, so it remains to accept the statement
    refine ⟨Γ', ?_, hΓ⟩
    match s with
    | .declare b => exact absurd rfl (hs b)
    | .assign target value =>
      obtain ⟨expected, hexpected, h⟩ := bind_eq_ok.mp h
      obtain ⟨found, hfound, h⟩ := bind_eq_ok.mp h
      refine bind_eq_ok.mpr ⟨expected, (hc.targetType hfind target).trans hexpected,
        bind_eq_ok.mpr ⟨found, (value.type_agree hc hfind).trans hfound, ?_⟩⟩
      split at h
      next haccepts => rw [if_pos haccepts]; rfl
      next => cases h
    | .cond branches =>
      obtain ⟨_, hbranches, _⟩ := bind_eq_ok.mp h
      exact bind_eq_ok.mpr ⟨(), branches.check_alike hc hΓ hbranches, rfl⟩
    | .loop test body =>
      obtain ⟨_, htest, h⟩ := bind_eq_ok.mp h
      obtain ⟨_, hbody, _⟩ := bind_eq_ok.mp h
      have htest' : checkTest c' Γ' .loopCondition test = .ok () := by
        simpa only [checkTest, test.type_agree hc hfind] using htest
      exact bind_eq_ok.mpr ⟨(), htest',
        bind_eq_ok.mpr ⟨(), checkStmts_alike hc body hΓ.push hbody, rfl⟩⟩
    | .count var start direction stop body =>
      obtain ⟨_, hstart, h⟩ := bind_eq_ok.mp h
      obtain ⟨_, hstop, h⟩ := bind_eq_ok.mp h
      obtain ⟨_, hbody, _⟩ := bind_eq_ok.mp h
      have hstart' : checkBound c' Γ' .start start = .ok () := by
        simpa only [checkBound, start.type_agree hc hfind] using hstart
      have hstop' : checkBound c' Γ' .stop stop = .ok () := by
        simpa only [checkBound, stop.type_agree hc hfind] using hstop
      have hinner := hΓ.push.declare var.text (.variable .int)
      exact bind_eq_ok.mpr ⟨(), hstart', bind_eq_ok.mpr ⟨(), hstop',
        bind_eq_ok.mpr ⟨(), checkStmts_alike hc body hinner hbody, rfl⟩⟩⟩
    | .ret value p =>
      obtain ⟨_, hvalue, _⟩ := bind_eq_ok.mp h
      exact bind_eq_ok.mpr ⟨(), (checkReturn_agree hc hfind p value).trans hvalue, rfl⟩
    | .delete name =>
      obtain ⟨_, hname, _⟩ := bind_eq_ok.mp h
      have hname' : checkDelete Γ' name = .ok () := by
        simpa only [checkDelete, hfind] using hname
      exact bind_eq_ok.mpr ⟨(), hname', rfl⟩
    | .call fn args =>
      obtain ⟨ty, hty, _⟩ := bind_eq_ok.mp h
      exact bind_eq_ok.mpr ⟨ty, (Term.type_agree hc hfind (.call fn args)).trans hty, rfl⟩

theorem checkStmts_alike (hc : c.Agrees c') (ss : List Stmt) {Γ Γ' : Scopes Meaning}
    (hΓ : Alike c c' Γ Γ') (h : checkStmts c ret Γ ss = .ok ()) :
    checkStmts c' ret Γ' ss = .ok () := by
  match ss with
  | [] => rfl
  | s :: rest =>
    obtain ⟨Γ₁, hs, hrest⟩ := checkStmts_cons h
    obtain ⟨Γ₁', hs', hΓ₁⟩ := s.check_alike hc hΓ hs
    refine bind_eq_ok.mpr ⟨Γ₁', hs', ?_⟩
    cases hret : s.isReturn with
    | true => rfl
    | false => exact checkStmts_alike hc rest hΓ₁ (hrest hret)

theorem Branches.check_alike (hc : c.Agrees c') (bs : Branches) {Γ Γ' : Scopes Meaning}
    (hΓ : Alike c c' Γ Γ') (h : bs.check c ret Γ = .ok ()) : bs.check c' ret Γ' = .ok () := by
  match bs with
  | .done => rfl
  | .otherwise body => exact checkStmts_alike hc body hΓ.push h
  | .branch test body rest =>
    obtain ⟨_, htest, h⟩ := bind_eq_ok.mp h
    obtain ⟨_, hbody, hrest⟩ := bind_eq_ok.mp h
    have htest' : checkTest c' Γ' .condition test = .ok () := by
      simpa only [checkTest, test.type_agree hc (hΓ.find? hc)] using htest
    exact bind_eq_ok.mpr ⟨(), htest', bind_eq_ok.mpr ⟨(), checkStmts_alike hc body hΓ.push hbody,
      rest.check_alike hc hΓ hrest⟩⟩

end

theorem FunDecl.scopes_alike (f : FunDecl) (c c' : Catalog) :
    Alike c c' (f.scopes c) (f.scopes c') := by
  have hparams : ∀ (params : List Param) {Γ Γ' : Scopes Meaning}, Alike c c' Γ Γ' →
      Alike c c' (params.foldl (fun s p => s.declare p.name.text (.variable p.note.ty)) Γ)
        (params.foldl (fun s p => s.declare p.name.text (.variable p.note.ty)) Γ') := by
    intro params
    induction params with
    | nil => exact id
    | cons p params ih => exact fun h => ih (h.declare p.name.text (.variable p.note.ty))
  exact hparams f.params ⟨[[]], nofun, rfl, rfl⟩

theorem FunDecl.check_agrees (hc : c.Agrees c') {f : FunDecl} (h : f.check c = .ok ()) :
    f.check c' = .ok () :=
  checkStmts_alike hc f.body (f.scopes_alike c c') h

end Statements

end RecordLang

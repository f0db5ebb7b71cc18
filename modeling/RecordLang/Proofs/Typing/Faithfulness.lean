import RecordLang.Proofs.Typing.Declarations

/-! # Faithful catalogs

The catalog of a checked program has its declarations and nothing else, under names that are all
different, and each type in it is one that a variable can have. The types of fields may be those of
their first values. Such a value knows of no variable, so its type is that of a literal, of a record
that is made, of the result of an operator or of a function, and all of these are known by the time
when fields are added.
-/

namespace RecordLang

inductive Program.VariableType (p : Program) : Ty → Prop where
  | int : VariableType p .int
  | double : VariableType p .double
  | bool : VariableType p .bool
  | char : VariableType p .char
  | string : VariableType p .string
  | record {d : RecordDecl} (hd : d ∈ p.records) : VariableType p (.record d.name.text)

namespace Catalog

def Knows (c : Catalog) (ty : Ty) : Prop := ∀ r, ty = .record r → c.hasRecord r = true

structure Allows (c : Catalog) (ty : Ty) : Prop where
  notVoid : ty ≠ .void
  notNil : ty ≠ .nil
  known : c.Knows ty

end Catalog

open Catalog

section Types

variable {c : Catalog} {s : Scopes Meaning} {ty : Ty}

theorem checkVariableType_eq_ok_iff {note : TypeNote} :
    c.checkVariableType note = .ok () ↔ c.Allows note.ty := by
  obtain ⟨ty, pos⟩ := note
  have hallows : c.Allows ty ↔ ty ≠ .void ∧ ty ≠ .nil ∧ c.Knows ty :=
    ⟨fun h => ⟨h.notVoid, h.notNil, h.known⟩, fun h => ⟨h.1, h.2.1, h.2.2⟩⟩
  rw [hallows]
  cases ty <;> simp [checkVariableType, Knows, violated]

theorem knows_of_isRecord (h : ty.isRecord = false) : c.Knows ty := by
  rintro r rfl
  cases h

theorem Ty.isRecord_of_isNumeric (h : ty.isNumeric = true) : ty.isRecord = false := by
  cases ty with
  | int | double => rfl
  | _ => cases h

theorem BinOp.type?_isRecord {op : BinOp} {left right : Ty} (h : op.type? left right = some ty) :
    ty.isRecord = false := by
  have hnumeric :
      (if left = right && left.isNumeric then some left else none) = some ty →
        ty.isRecord = false := by
    intro h
    split at h
    next hcond =>
      cases h
      exact Ty.isRecord_of_isNumeric (Bool.and_eq_true_iff.mp hcond).2
    next => cases h
  unfold BinOp.type? at h
  split at h
  next =>
    split at h
    next => cases h; rfl
    next => cases h; rfl
    next => cases h; rfl
    next => exact hnumeric h
  next => exact hnumeric h
  next => exact hnumeric h
  next => exact hnumeric h
  all_goals
    split at h
    next => cases h; rfl
    next => cases h

theorem Builtin.ret_isRecord (b : Builtin) : b.ret.isRecord = false := by
  cases b <;> rfl

theorem negatedType_eq_ok {negated : Bool} {p : Position} {ty' : Ty}
    (h : negatedType negated p ty = .ok ty') : ty' = ty := by
  unfold negatedType at h
  split at h
  next => cases h
  next => cases h; rfl

theorem callee?_ret_known (hc : ∀ name sig, c.fun? name = some sig → c.Knows sig.ret)
    {name : String} {callee : Callee} (h : c.callee? name = some callee) : c.Knows callee.ret := by
  unfold callee? at h
  split at h
  next b _ =>
    cases h
    exact knows_of_isRecord b.ret_isRecord
  next =>
    obtain ⟨sig, hsig, rfl⟩ := Option.map_eq_some_iff.mp h
    exact hc name sig hsig

mutual

/-- An expression without variables has a type that the catalog knows, if functions return such
types; fields do not matter. -/
theorem Expr.type_known (hc : ∀ name sig, c.fun? name = some sig → c.Knows sig.ret)
    (hs : NoVariables s) (e : Expr) {ty : Ty} (h : e.type c s = .ok ty) : c.Knows ty := by
  match e with
  | .single negated first p =>
    obtain ⟨ty', hty', h⟩ := bind_eq_ok.mp h
    rw [negatedType_eq_ok h]
    exact first.type_known hc hs hty'
  | .chain negated first op opPos rest p =>
    obtain ⟨left, _, h⟩ := bind_eq_ok.mp h
    obtain ⟨right, _, h⟩ := bind_eq_ok.mp h
    split at h
    next ty' hop =>
      rw [negatedType_eq_ok h]
      exact knows_of_isRecord (BinOp.type?_isRecord hop)
    next => cases h

theorem Term.type_known (hc : ∀ name sig, c.fun? name = some sig → c.Knows sig.ret)
    (hs : NoVariables s) (t : Term) {ty : Ty} (h : t.type c s = .ok ty) : c.Knows ty := by
  match t with
  | .literal v p =>
    cases h
    cases v <;> exact knows_of_isRecord rfl
  | .construct r =>
    unfold Term.type at h
    split at h
    next hr =>
      cases h
      rintro name ⟨⟩
      exact hr
    next => cases h
  | .path names => exact absurd h (pathType_of_noVariables hs names ty)
  | .call fn args =>
    unfold Term.type at h
    split at h
    next => cases h
    next callee hcallee =>
      split at h
      next => cases h
      next =>
        obtain ⟨_, _, h⟩ := bind_eq_ok.mp h
        cases h
        exact callee?_ret_known hc hcallee
  | .neg operand p =>
    obtain ⟨ty', _, h⟩ := bind_eq_ok.mp h
    split at h
    next hnumeric =>
      cases h
      exact knows_of_isRecord (Ty.isRecord_of_isNumeric hnumeric)
    next => cases h
  | .paren inner => exact inner.type_known hc hs h

end

theorem Binding.type_allowed (hc : ∀ name sig, c.fun? name = some sig → c.Knows sig.ret)
    (hs : NoVariables s) {b : Binding} (h : b.type c s = .ok ty) :
    c.Allows ty ∧ ∀ note, b.declared = some note → ty = note.ty := by
  obtain ⟨found, hfound, h⟩ := bind_eq_ok.mp h
  cases hb : b.declared with
  | some note =>
    simp only [hb] at h
    obtain ⟨_, hnote, h⟩ := bind_eq_ok.mp h
    split at h
    next =>
      cases h
      refine ⟨checkVariableType_eq_ok_iff.mp hnote, ?_⟩
      rintro _ ⟨⟩
      rfl
    next => cases h
  | none =>
    simp only [hb] at h
    split at h
    next => cases h
    next => cases h
    next hnil hvoid =>
      cases h
      exact ⟨⟨hvoid, hnil, b.init.type_known hc hs hfound⟩, nofun⟩

end Types

namespace Catalog

variable {c : Catalog}

theorem paramTypes_sound {params : List Param} {earlier types : Table Ty}
    (h : c.paramTypes earlier params = .ok types) (hnd : earlier.names.Nodup) :
    types.names.Nodup ∧ ∀ q ∈ params, c.Allows q.note.ty := by
  induction params generalizing earlier with
  | nil =>
    cases h
    exact ⟨hnd, nofun⟩
  | cons q rest ih =>
    obtain ⟨_, hq, h⟩ := bind_eq_ok.mp h
    split at h
    next => cases h
    next hnew =>
      have hnd' := Table.nodup_names_concat (a := q.note.ty) hnd (Bool.eq_false_iff.mpr hnew)
      obtain ⟨hnames, hrest⟩ := ih h hnd'
      exact ⟨hnames, List.forall_mem_cons.mpr ⟨checkVariableType_eq_ok_iff.mp hq, hrest⟩⟩

/-- A signature has parameters of different names and types that variables can have, and returns
nothing or a value of such a type. -/
theorem signature_sound {f : FunDecl} (h : c.signature f = .ok f.signature) :
    f.signature.params.names.Nodup ∧ (∀ e ∈ f.signature.params, c.Allows e.2) ∧
      (f.ret.ty = .void ∨ c.Allows f.ret.ty) := by
  unfold signature at h
  have hparts : (f.ret.ty = .void ∨ c.Allows f.ret.ty) ∧
      c.paramTypes [] f.params = .ok f.signature.params := by
    split at h
    next =>
      obtain ⟨_, hret, h⟩ := bind_eq_ok.mp h
      obtain ⟨params, hparams, h⟩ := bind_eq_ok.mp h
      rw [← congrArg Signature.params (Except.ok.inj h)]
      exact ⟨.inr (checkVariableType_eq_ok_iff.mp hret), hparams⟩
    next hvoid =>
      obtain ⟨params, hparams, h⟩ := bind_eq_ok.mp h
      rw [← congrArg Signature.params (Except.ok.inj h)]
      exact ⟨.inl (not_not.mp hvoid), hparams⟩
  obtain ⟨hret, hparams⟩ := hparts
  obtain ⟨hnames, hallowed⟩ := paramTypes_sound hparams List.nodup_nil
  refine ⟨hnames, ?_, hret⟩
  intro e he
  obtain ⟨q, hq, rfl⟩ := List.mem_map.mp he
  exact hallowed q hq

theorem fieldTypes_nodup {record : String} {earlier fields : Table Ty} {bs : List Binding}
    (h : c.fieldTypes record earlier bs = .ok fields) (hnd : earlier.names.Nodup) :
    fields.names.Nodup := by
  induction bs generalizing earlier with
  | nil =>
    cases h
    exact hnd
  | cons b rest ih =>
    unfold fieldTypes at h
    split at h
    next => cases h
    next hnew =>
      obtain ⟨ty, _, h⟩ := bind_eq_ok.mp h
      exact ih h (Table.nodup_names_concat hnd (Bool.eq_false_iff.mpr hnew))

/-- Fields have the names and types that are written, in order and without duplicates; a type that
is left to the first value is one that variables can have, too. -/
theorem fieldTypes_sound (hc : ∀ name sig, c.fun? name = some sig → c.Knows sig.ret)
    {record : String} {fields : Table Ty} {bs : List Binding}
    (h : c.fieldTypes record [] bs = .ok fields) :
    fields.names = bs.map (·.name.text) ∧ fields.names.Nodup ∧
      (∀ b ∈ bs, ∀ note, b.declared = some note → (b.name.text, note.ty) ∈ fields) ∧
      ∀ e ∈ fields, c.Allows e.2 := by
  obtain ⟨hnames, _, htypes⟩ := fieldTypes_eq_ok h
  rw [show Table.names ([] : Table Ty) = [] from rfl, List.nil_append] at hnames
  have hnd := fieldTypes_nodup h List.nodup_nil
  have hallowed : ∀ b ∈ bs, ∃ ty, (b.name.text, ty) ∈ fields ∧ c.Allows ty ∧
      ∀ note, b.declared = some note → ty = note.ty := by
    intro b hb
    obtain ⟨ty, hget, hty⟩ := htypes b hb
    exact ⟨ty, (Table.get?_eq_some_iff hnd).mp hget, b.type_allowed hc c.globals_noVariables hty⟩
  refine ⟨hnames, hnd, ?_, ?_⟩
  · intro b hb note hnote
    obtain ⟨ty, hmem, _, hdeclared⟩ := hallowed b hb
    rw [← hdeclared note hnote]
    exact hmem
  · rintro ⟨name, ty⟩ he
    have hname : name ∈ bs.map (·.name.text) := by
      rw [← hnames]
      exact List.mem_map.mpr ⟨_, he, rfl⟩
    obtain ⟨b, hb, rfl⟩ := List.mem_map.mp hname
    obtain ⟨ty', hmem, hty', _⟩ := hallowed b hb
    have hget := (Table.get?_eq_some_iff hnd).mpr hmem
    rw [(Table.get?_eq_some_iff hnd).mpr he] at hget
    cases hget
    exact hty'

end Catalog

theorem Builtin.ofName?_eq_none_iff {name : String} :
    Builtin.ofName? name = none ↔ name ∉ Builtin.all.map Builtin.name := by
  simp [Builtin.ofName?, List.find?_eq_none]

namespace Program

variable {p : Program} {c : Catalog} {ty : Ty}

theorem Declared.variableType (h : p.Declared c) (hty : c.Allows ty) : p.VariableType ty := by
  cases ty with
  | int => exact .int
  | double => exact .double
  | bool => exact .bool
  | char => exact .char
  | string => exact .string
  | void => exact absurd rfl hty.notVoid
  | nil => exact absurd rfl hty.notNil
  | record name =>
    obtain ⟨d, hd, rfl⟩ := h.hasRecord_iff.mp (hty.known name rfl)
    exact .record hd

theorem Catalogued.ret_known (h : p.Catalogued c) {name : String} {sig : Signature}
    (hsig : c.fun? name = some sig) : c.Knows sig.ret := by
  obtain ⟨f, hf, _, rfl⟩ := h.declared.fun?_eq_some_iff.mp hsig
  obtain ⟨_, _, hvoid | hret⟩ := signature_sound (h.signatures f hf)
  · exact knows_of_isRecord (by rw [FunDecl.signature, hvoid]; rfl)
  · exact hret.known

/-- The names of declarations differ from each other and from those of the built-in functions. -/
theorem Catalogued.names_nodup (h : p.Catalogued c) :
    (p.records.map (·.name.text) ++ p.funs.map (·.name.text) ++
      Builtin.all.map Builtin.name).Nodup := by
  obtain ⟨hnd, hfree⟩ := h.names
  refine List.nodup_append.mpr ⟨hnd, by decide, ?_⟩
  rintro x hx y hy rfl
  exact Builtin.ofName?_eq_none_iff.mp (hfree x hx).1 hy

/-- The catalog of a checked program has one entry for each declaration and no others, under names
that are all different. An entry has the names of the fields or parameters, which are different, in
order, and types that variables can have; a function may also return nothing. There is `main`, which
has no parameters and returns nothing. -/
theorem checked_catalog_is_faithful (h : p.check = .ok c) :
    (p.records.map (·.name.text) ++ p.funs.map (·.name.text) ++
      Builtin.all.map Builtin.name).Nodup ∧
    c.records.names = p.records.map (·.name.text) ∧
    c.funs.names = p.funs.map (·.name.text) ∧
    (∀ d ∈ p.records, ∃ fields, c.fields? d.name.text = some fields ∧
      fields.names = d.fields.map (·.name.text) ∧ fields.names.Nodup ∧
      (∀ b ∈ d.fields, ∀ note, b.declared = some note → (b.name.text, note.ty) ∈ fields) ∧
      ∀ e ∈ fields, p.VariableType e.2) ∧
    (∀ f ∈ p.funs, ∃ sig, c.fun? f.name.text = some sig ∧
      sig.params = f.params.map (fun q => (q.name.text, q.note.ty)) ∧ sig.params.names.Nodup ∧
      (∀ e ∈ sig.params, p.VariableType e.2) ∧
      sig.ret = f.ret.ty ∧ (sig.ret = .void ∨ p.VariableType sig.ret)) ∧
    ∃ sig, c.fun? "main" = some sig ∧ sig.params = [] ∧ sig.ret = .void := by
  obtain ⟨hcat, _, hmain, _⟩ := check_eq_ok_iff.mp h
  have hdecl := hcat.declared
  refine ⟨hcat.names_nodup, hdecl.records, ?_, ?_, ?_, hmain⟩
  · rw [hcat.funs, Table.names, List.map_map]
    rfl
  · intro d hd
    obtain ⟨⟨name, fields⟩, hmem, rfl, hfields⟩ := exists_of_forall₂ hcat.records hd
    obtain ⟨hnames, hnd, hnotes, hallowed⟩ := fieldTypes_sound (fun _ _ => hcat.ret_known) hfields
    have hget := (Table.get?_eq_some_iff (hdecl.records ▸ hdecl.records_nodup)).mpr hmem
    exact ⟨fields, hget, hnames, hnd, hnotes, fun e he => hdecl.variableType (hallowed e he)⟩
  · intro f hf
    obtain ⟨hnd, hparams, hret⟩ := signature_sound (hcat.signatures f hf)
    exact ⟨f.signature, hdecl.fun?_eq_some_iff.mpr ⟨f, hf, rfl, rfl⟩, rfl, hnd,
      fun e he => hdecl.variableType (hparams e he), rfl, hret.imp_right hdecl.variableType⟩

/-- Fields whose types come from a construction, from a function that is declared later, from an
operator, and from a note beside a `nil`. -/
def furnished : Program where
  records :=
    [⟨⟨"Room", default⟩,
        [⟨⟨"lamp", default⟩, none, .single false (.construct ⟨"Lamp", default⟩) default⟩,
          ⟨⟨"next", default⟩, none, .single false (.call ⟨"door", default⟩ []) default⟩,
          ⟨⟨"dark", default⟩, none,
            .chain true (.literal (.char 'a') default) .lt default
              (.single false (.literal (.char 'b') default) default) default⟩,
          ⟨⟨"size", default⟩, some ⟨.double, default⟩,
            .single false (.literal .nil default) default⟩]⟩,
      ⟨⟨"Lamp", default⟩, []⟩]
  funs :=
    [⟨⟨.void, default⟩, ⟨"main", default⟩, [], []⟩,
      ⟨⟨.record "Room", default⟩, ⟨"door", default⟩, [], []⟩]

theorem furnished_catalog_is_faithful :
    ∃ c, furnished.check = .ok c ∧ c.records.names = ["Room", "Lamp"] ∧
      c.funs.names = ["main", "door"] ∧
      ∃ fields, c.fields? "Room" = some fields ∧
        fields.names = ["lamp", "next", "dark", "size"] ∧ ("size", .double) ∈ fields ∧
        ∀ e ∈ fields, furnished.VariableType e.2 := by
  obtain ⟨c, hcheck⟩ : ∃ c, furnished.check = .ok c := exists_of_isOk (by decide +kernel)
  obtain ⟨_, hrecords, hfuns, hfields, _⟩ := checked_catalog_is_faithful hcheck
  obtain ⟨fields, hget, hnames, _, hnotes, htypes⟩ := hfields _ (.head _)
  exact ⟨c, hcheck, hrecords, hfuns, fields, hget, hnames,
    hnotes _ (.tail _ (.tail _ (.tail _ (.head _)))) _ rfl, htypes⟩

end Program

end RecordLang

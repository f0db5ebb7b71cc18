import RecordLang.Proofs.Compile.Slots
import RecordLang.Proofs.Table

/-! # The catalog of a checked program

The catalog that checking returns has an entry for each declaration, under names that are all
different. The first values of fields have been checked against a catalog that was not complete yet;
since they know of no variable, they have the same types with respect to the complete one. So each
round of checking decides a condition on the members of its row of declarations, and on the complete
catalog only.
-/

namespace RecordLang

def FunDecl.signature (f : FunDecl) : Signature :=
  ⟨f.params.map fun p => (p.name.text, p.note.ty), f.ret.ty⟩

namespace Catalog

variable {c c' : Catalog}

theorem paramTypes_eq_ok {params : List Param} {earlier types : Table Ty}
    (h : c.paramTypes earlier params = .ok types) :
    types = earlier ++ params.map fun p => (p.name.text, p.note.ty) := by
  induction params generalizing earlier with
  | nil =>
    cases h
    simp
  | cons p rest ih =>
    obtain ⟨_, _, h⟩ := bind_eq_ok.mp h
    split at h
    next => cases h
    next =>
      rw [ih h]
      simp

theorem signature_eq_ok {f : FunDecl} {sig : Signature} (h : c.signature f = .ok sig) :
    sig = f.signature := by
  unfold Catalog.signature at h
  have hparams : ∃ params, c.paramTypes [] f.params = .ok params ∧ sig = ⟨params, f.ret.ty⟩ := by
    split at h
    next =>
      obtain ⟨_, _, h⟩ := bind_eq_ok.mp h
      obtain ⟨params, hparams, h⟩ := bind_eq_ok.mp h
      cases h
      exact ⟨params, hparams, rfl⟩
    next =>
      obtain ⟨params, hparams, h⟩ := bind_eq_ok.mp h
      cases h
      exact ⟨params, hparams, rfl⟩
  obtain ⟨params, hparams, rfl⟩ := hparams
  rw [paramTypes_eq_ok hparams]
  rfl

theorem checkVariableType_congr (h : ∀ r, c'.hasRecord r = c.hasRecord r) (note : TypeNote) :
    c'.checkVariableType note = c.checkVariableType note := by
  unfold checkVariableType
  simp only [h]

theorem signature_congr (h : ∀ r, c'.hasRecord r = c.hasRecord r) (f : FunDecl) :
    c'.signature f = c.signature f := by
  have hparams : ∀ (params : List Param) (earlier : Table Ty),
      c'.paramTypes earlier params = c.paramTypes earlier params := by
    intro params
    induction params with
    | nil => exact fun _ => rfl
    | cons p rest ih =>
      intro earlier
      simp only [paramTypes, checkVariableType_congr h, ih]
  simp only [signature, checkVariableType_congr h, hparams]

def Free (c : Catalog) (name : String) : Prop :=
  Builtin.ofName? name = none ∧ c.isDeclared name = false

def AllFree (c : Catalog) (names : List String) : Prop :=
  names.Nodup ∧ ∀ x ∈ names, c.Free x

theorem addRecord_eq_ok_iff {d : RecordDecl} :
    c.addRecord d = .ok c' ↔
      c.Free d.name.text ∧ c' = ⟨c.records ++ [(d.name.text, [])], c.funs⟩ := by
  unfold addRecord declareRecord? Free
  cases hb : Builtin.ofName? d.name.text with
  | some b => simp [violated]
  | none =>
    cases hd : c.isDeclared d.name.text with
    | true => simp [violated]
    | false =>
      have hnew : c.records.has d.name.text = false := by
        simp only [isDeclared, Bool.or_eq_false_iff] at hd
        exact hd.1
      simp [Table.put_of_not_has hnew, eq_comm]

theorem exists_signature {f : FunDecl} {P : Signature → Prop} :
    (∃ sig, c.signature f = .ok sig ∧ P sig) ↔
      c.signature f = .ok f.signature ∧ P f.signature := by
  constructor
  · rintro ⟨sig, hsig, h⟩
    obtain rfl := signature_eq_ok hsig
    exact ⟨hsig, h⟩
  · rintro ⟨hsig, h⟩
    exact ⟨_, hsig, h⟩

theorem addFun_eq_ok_iff {f : FunDecl} :
    c.addFun f = .ok c' ↔
      c.signature f = .ok f.signature ∧ c.Free f.name.text ∧
        c' = ⟨c.records, c.funs ++ [(f.name.text, f.signature)]⟩ := by
  unfold addFun declareFun? Free
  rw [bind_eq_ok, exists_signature]
  refine and_congr_right fun _ => ?_
  cases hb : Builtin.ofName? f.name.text with
  | some b => simp [violated]
  | none =>
    cases hd : c.isDeclared f.name.text with
    | true => simp [violated]
    | false =>
      have hnew : c.funs.has f.name.text = false := by
        simp only [isDeclared, Bool.or_eq_false_iff] at hd
        exact hd.2
      simp [Table.put_of_not_has hnew, eq_comm]

theorem allFree_append {xs ys : List String}
    (h : ∀ y, c'.isDeclared y = (c.isDeclared y || decide (y ∈ xs))) :
    c.AllFree (xs ++ ys) ↔ c.AllFree xs ∧ c'.AllFree ys := by
  simp only [AllFree, Free, h, List.nodup_append, List.forall_mem_append, Bool.or_eq_false_iff,
    decide_eq_false_iff_not]
  constructor
  · rintro ⟨⟨hxs, hys, hne⟩, hfree, hfree'⟩
    refine ⟨⟨hxs, hfree⟩, hys, ?_⟩
    intro y hy
    exact ⟨(hfree' y hy).1, (hfree' y hy).2, fun hx => hne y hx y hy rfl⟩
  · rintro ⟨⟨hxs, hfree⟩, hys, hfree'⟩
    refine ⟨⟨hxs, hys, ?_⟩, hfree, ?_⟩
    · rintro x hx y hy rfl
      exact (hfree' x hy).2.2 hx
    · intro y hy
      exact ⟨(hfree' y hy).1, (hfree' y hy).2.1⟩

theorem allFree_cons {x : String} {xs : List String}
    (h : ∀ y, c'.isDeclared y = (c.isDeclared y || decide (y = x))) :
    c.AllFree (x :: xs) ↔ c.Free x ∧ c'.AllFree xs := by
  have hone : c.AllFree [x] ↔ c.Free x := by simp [AllFree]
  rw [← hone, ← allFree_append (by simpa using h), List.singleton_append]

theorem foldlM_addRecord_iff {ds : List RecordDecl} :
    ds.foldlM addRecord c = .ok c' ↔
      c.AllFree (ds.map (·.name.text)) ∧
        c' = ⟨c.records ++ ds.map fun d => (d.name.text, []), c.funs⟩ := by
  induction ds generalizing c with
  | nil =>
    simp only [List.foldlM_nil, pure, Except.pure, Except.ok.injEq, List.map_nil,
      List.append_nil, AllFree, List.nodup_nil, true_and]
    exact ⟨fun h => ⟨nofun, h.symm⟩, fun h => h.2.symm⟩
  | cons d ds ih =>
    have hdeclared : ∀ y, isDeclared ⟨c.records ++ [(d.name.text, [])], c.funs⟩ y =
        (c.isDeclared y || decide (y = d.name.text)) := by
      intro y
      simp only [isDeclared, Table.has_append, Table.has_singleton]
      exact Bool.or_right_comm ..
    rw [List.foldlM_cons, bind_eq_ok, List.map_cons, allFree_cons hdeclared, List.map_cons]
    simp only [addRecord_eq_ok_iff, ih]
    constructor
    · rintro ⟨_, ⟨hfree, rfl⟩, hall, rfl⟩
      exact ⟨⟨hfree, hall⟩, by simp⟩
    · rintro ⟨⟨hfree, hall⟩, rfl⟩
      exact ⟨_, ⟨hfree, rfl⟩, hall, by simp⟩

theorem foldlM_addFun_iff {fs : List FunDecl} :
    fs.foldlM addFun c = .ok c' ↔
      (∀ f ∈ fs, c.signature f = .ok f.signature) ∧ c.AllFree (fs.map (·.name.text)) ∧
        c' = ⟨c.records, c.funs ++ fs.map fun f => (f.name.text, f.signature)⟩ := by
  induction fs generalizing c with
  | nil =>
    simp only [List.foldlM_nil, pure, Except.pure, Except.ok.injEq, List.map_nil,
      List.append_nil, AllFree, List.nodup_nil, true_and]
    exact ⟨fun h => ⟨nofun, nofun, h.symm⟩, fun h => h.2.2.symm⟩
  | cons f fs ih =>
    have hdeclared : ∀ y, isDeclared ⟨c.records, c.funs ++ [(f.name.text, f.signature)]⟩ y =
        (c.isDeclared y || decide (y = f.name.text)) := by
      intro y
      simp only [isDeclared, Table.has_append, Table.has_singleton]
      exact (Bool.or_assoc ..).symm
    -- signatures depend on the records, which stay
    have hsig : ∀ f', signature ⟨c.records, c.funs ++ [(f.name.text, f.signature)]⟩ f' =
        c.signature f' := signature_congr fun _ => rfl
    rw [List.foldlM_cons, bind_eq_ok, List.map_cons, allFree_cons hdeclared, List.map_cons]
    simp only [addFun_eq_ok_iff, ih, List.forall_mem_cons]
    constructor
    · rintro ⟨_, ⟨hf, hfree, rfl⟩, hsigs, hall, rfl⟩
      simp only [hsig] at hsigs
      exact ⟨⟨hf, hsigs⟩, ⟨hfree, hall⟩, by simp⟩
    · rintro ⟨⟨hf, hsigs⟩, ⟨hfree, hall⟩, rfl⟩
      refine ⟨_, ⟨hf, hfree, rfl⟩, ?_, hall, by simp⟩
      simpa only [hsig] using hsigs

/-- The same records and functions; the fields of records may differ. -/
structure SameNames (c c' : Catalog) : Prop where
  funs : c'.funs = c.funs
  records : ∀ r, c'.hasRecord r = c.hasRecord r

theorem SameNames.refl (c : Catalog) : SameNames c c := ⟨rfl, fun _ => rfl⟩

theorem SameNames.symm (h : SameNames c c') : SameNames c' c :=
  ⟨h.funs.symm, fun r => (h.records r).symm⟩

theorem SameNames.trans {c₁ c₂ c₃ : Catalog} (h : SameNames c₁ c₂) (h' : SameNames c₂ c₃) :
    SameNames c₁ c₃ :=
  ⟨h'.funs.trans h.funs, fun r => (h'.records r).trans (h.records r)⟩

theorem SameNames.of_names (hfuns : c'.funs = c.funs)
    (hrecords : c'.records.names = c.records.names) : SameNames c c' := by
  refine ⟨hfuns, ?_⟩
  intro r
  rw [Bool.eq_iff_iff]
  simp only [hasRecord, Table.has_iff, hrecords]

theorem SameNames.callee? (h : SameNames c c') (name : String) :
    c'.callee? name = c.callee? name := by
  unfold Catalog.callee? Catalog.fun?
  rw [h.funs]

end Catalog

def NoVariables (s : Scopes Meaning) : Prop := ∀ x ty, s.find? x ≠ some (.variable ty)

open Catalog

section Transfer

variable {c c' : Catalog} {s s' : Scopes Meaning}

theorem pathType_of_noVariables (hs : NoVariables s) (names : List Ident) (ty : Ty) :
    c.pathType s names ≠ .ok ty := by
  intro h
  cases names with
  | nil => cases h
  | cons head fields =>
    simp only [pathType] at h
    split at h
    next ty' hx => exact hs _ _ hx
    next => cases h
    next => cases h

mutual

theorem Expr.type_transfer (hc : SameNames c c') (hs : NoVariables s) (e : Expr) {ty : Ty}
    (h : e.type c s = .ok ty) : e.type c' s' = .ok ty := by
  match e with
  | .single negated first p =>
    obtain ⟨t, ht, h⟩ := bind_eq_ok.mp h
    exact bind_eq_ok.mpr ⟨t, first.type_transfer hc hs ht, h⟩
  | .chain negated first op opPos rest p =>
    obtain ⟨left, hleft, h⟩ := bind_eq_ok.mp h
    obtain ⟨right, hright, h⟩ := bind_eq_ok.mp h
    exact bind_eq_ok.mpr ⟨left, first.type_transfer hc hs hleft,
      bind_eq_ok.mpr ⟨right, rest.type_transfer hc hs hright, h⟩⟩

theorem Term.type_transfer (hc : SameNames c c') (hs : NoVariables s) (t : Term) {ty : Ty}
    (h : t.type c s = .ok ty) : t.type c' s' = .ok ty := by
  match t with
  | .literal v p => exact h
  | .construct r =>
    unfold Term.type at h ⊢
    rwa [hc.records]
  | .path names => exact absurd h (pathType_of_noVariables hs names ty)
  | .call fn args =>
    unfold Term.type at h ⊢
    rw [hc.callee?]
    split at h
    next => cases h
    next callee hcallee =>
      split at h
      next => cases h
      next hlen =>
        simp only [if_neg hlen]
        obtain ⟨_, hargs, h⟩ := bind_eq_ok.mp h
        exact bind_eq_ok.mpr ⟨(), checkArgs_transfer hc hs args hargs, h⟩
  | .neg operand p =>
    obtain ⟨t, ht, h⟩ := bind_eq_ok.mp h
    exact bind_eq_ok.mpr ⟨t, operand.type_transfer hc hs ht, h⟩
  | .paren inner => exact inner.type_transfer hc hs h

theorem checkArgs_transfer (hc : SameNames c c') (hs : NoVariables s) (args : List Expr)
    {demands : List Demand} (h : checkArgs c s args demands = .ok ()) :
    checkArgs c' s' args demands = .ok () := by
  match args, demands with
  | [], _ => rfl
  | _ :: _, [] => rfl
  | arg :: args, demand :: demands =>
    obtain ⟨found, hfound, h⟩ := bind_eq_ok.mp h
    refine bind_eq_ok.mpr ⟨found, arg.type_transfer hc hs hfound, ?_⟩
    cases hv : demand.violation? found with
    | some v =>
      rw [hv] at h
      cases h
    | none =>
      rw [hv] at h
      exact checkArgs_transfer hc hs args h

end

theorem Binding.type_transfer (hc : SameNames c c') (hs : NoVariables s) (b : Binding) {ty : Ty}
    (h : b.type c s = .ok ty) : b.type c' s' = .ok ty := by
  obtain ⟨found, hfound, h⟩ := bind_eq_ok.mp h
  refine bind_eq_ok.mpr ⟨found, b.init.type_transfer hc hs hfound, ?_⟩
  simpa only [checkVariableType_congr hc.records] using h

end Transfer

theorem Catalog.globals_noVariables (c : Catalog) : NoVariables c.globals :=
  fun x ty => c.globals_find?_ne x ty

structure FieldsTyped (c : Catalog) (bindings : List Binding) (fields : Table Ty) : Prop where
  names : fields.names = bindings.map (·.name.text)
  types : ∀ b ∈ bindings, ∃ ty, fields.get? b.name.text = some ty ∧ b.type c c.globals = .ok ty

namespace Catalog

variable {c c' : Catalog}

theorem fieldTypes_eq_ok {record : String} {earlier fields : Table Ty} {bs : List Binding}
    (h : c.fieldTypes record earlier bs = .ok fields) :
    fields.names = earlier.names ++ bs.map (·.name.text) ∧
      (∀ x ty, earlier.get? x = some ty → fields.get? x = some ty) ∧
      ∀ b ∈ bs, ∃ ty, fields.get? b.name.text = some ty ∧ b.type c c.globals = .ok ty := by
  induction bs generalizing earlier with
  | nil =>
    cases h
    exact ⟨by simp, fun _ _ h => h, nofun⟩
  | cons b rest ih =>
    unfold fieldTypes at h
    split at h
    next => cases h
    next hnew =>
      obtain ⟨ty, hty, h⟩ := bind_eq_ok.mp h
      obtain ⟨hnames, hkeep, hrest⟩ := ih h
      refine ⟨by rw [hnames]; simp [Table.names], ?_, ?_⟩
      · intro x ty' hx
        apply hkeep
        rw [Table.get?_append, hx, Option.some_or]
      · intro b' hb'
        rcases List.mem_cons.mp hb' with rfl | hb'
        · refine ⟨ty, hkeep _ _ ?_, hty⟩
          have hnone : earlier.get? b'.name.text = none := by
            simpa [Table.has] using hnew
          rw [Table.get?_append, hnone, Option.none_or, Table.get?_cons, if_pos rfl]
        · exact hrest b' hb'

theorem SameNames.fieldTypes (hc : SameNames c c') {record : String} {earlier fields : Table Ty}
    {bs : List Binding} (h : c.fieldTypes record earlier bs = .ok fields) :
    c'.fieldTypes record earlier bs = .ok fields := by
  induction bs generalizing earlier with
  | nil => exact h
  | cons b rest ih =>
    unfold Catalog.fieldTypes at h ⊢
    split at h
    next => cases h
    next hnew =>
      simp only [hnew, Bool.false_eq_true, if_false]
      obtain ⟨ty, hty, h⟩ := bind_eq_ok.mp h
      exact bind_eq_ok.mpr ⟨ty, b.type_transfer hc c.globals_noVariables hty, ih h⟩

def EntryOf (c : Catalog) (d : RecordDecl) (entry : String × Table Ty) : Prop :=
  entry.1 = d.name.text ∧ c.fieldTypes d.name.text [] d.fields = .ok entry.2

theorem SameNames.entryOf (hc : SameNames c c') {d : RecordDecl} {entry : String × Table Ty}
    (h : c.EntryOf d entry) : c'.EntryOf d entry :=
  ⟨h.1, hc.fieldTypes h.2⟩

theorem names_of_entries {ds : List RecordDecl} {entries : Table (Table Ty)}
    (h : List.Forall₂ c.EntryOf ds entries) : entries.names = ds.map (·.name.text) := by
  rw [Table.names, ← List.forall₂_eq_eq_eq, List.forall₂_map_left_iff, List.forall₂_map_right_iff]
  exact h.flip.imp fun _ _ h => h.1

theorem addFields_eq_ok_iff {d : RecordDecl} :
    c.addFields d = .ok c' ↔
      ∃ fields, c.fieldTypes d.name.text [] d.fields = .ok fields ∧
        c' = c.setFields d.name.text fields := by
  unfold addFields
  rw [bind_eq_ok]
  simp only [pure, Except.pure, Except.ok.injEq, eq_comm]

/-- Each record gets its fields; `before` holds the records that have theirs. -/
theorem foldlM_addFields_iff {ds : List RecordDecl} {before : Table (Table Ty)}
    {funs : Table Signature} (hnd : (before.names ++ ds.map (·.name.text)).Nodup)
    (hc : SameNames c ⟨before ++ ds.map fun d => (d.name.text, []), funs⟩) :
    ds.foldlM addFields ⟨before ++ ds.map fun d => (d.name.text, []), funs⟩ = .ok c' ↔
      ∃ entries, List.Forall₂ c.EntryOf ds entries ∧ c' = ⟨before ++ entries, funs⟩ := by
  induction ds generalizing before with
  | nil => simp [pure, Except.pure, eq_comm]
  | cons d ds ih =>
    have hset : ∀ fields, setFields ⟨before ++ (d :: ds).map fun d => (d.name.text, []), funs⟩
        d.name.text fields =
          ⟨(before ++ [(d.name.text, fields)]) ++ ds.map fun d => (d.name.text, []), funs⟩ := by
      intro fields
      have hnew : before.has d.name.text = false := by
        rw [Bool.eq_false_iff, ne_eq, Table.has_iff]
        exact fun hmem => (List.nodup_append.mp hnd).2.2 _ hmem _ (.head _) rfl
      simp [setFields, Table.put_append_of_not_has hnew, Table.put]
    have hc' : ∀ fields, SameNames c
        ⟨(before ++ [(d.name.text, fields)]) ++ ds.map fun d => (d.name.text, []), funs⟩ := by
      intro fields
      exact hc.trans (.of_names rfl (by simp [Table.names]))
    have hnd' : ∀ fields : Table Ty, (Table.names (before ++ [(d.name.text, fields)]) ++
        ds.map (·.name.text)).Nodup := by
      intro fields
      simpa [Table.names] using hnd
    rw [List.foldlM_cons, bind_eq_ok]
    simp only [addFields_eq_ok_iff, hset]
    constructor
    · rintro ⟨_, ⟨fields, hfields, rfl⟩, h⟩
      obtain ⟨entries, hentries, rfl⟩ := (ih (hnd' fields) (hc' fields)).mp h
      exact ⟨(d.name.text, fields) :: entries, .cons ⟨rfl, hc.symm.fieldTypes hfields⟩ hentries,
        by simp⟩
    · rintro ⟨_, hentries, rfl⟩
      cases hentries with
      | @cons _ entry _ entries hentry hentries =>
        obtain ⟨name, fields⟩ := entry
        obtain ⟨rfl, hfields⟩ := hentry
        exact ⟨_, ⟨fields, hc.fieldTypes hfields, rfl⟩,
          (ih (hnd' fields) (hc' fields)).mpr ⟨entries, hentries, by simp⟩⟩

end Catalog

/-- The declarations of a program are right, and `c` is their catalog. -/
structure Program.Catalogued (p : Program) (c : Catalog) : Prop where
  names : Catalog.empty.AllFree (p.records.map (·.name.text) ++ p.funs.map (·.name.text))
  signatures : ∀ f ∈ p.funs, c.signature f = .ok f.signature
  funs : c.funs = p.funs.map fun f => (f.name.text, f.signature)
  records : List.Forall₂ c.EntryOf p.records c.records

/-- What checking establishes about the declarations of a program. -/
structure Program.Declared (p : Program) (c : Catalog) : Prop where
  records_nodup : (p.records.map (·.name.text)).Nodup
  records : c.records.names = p.records.map (·.name.text)
  fields : ∀ d ∈ p.records, ∃ fields, c.fields? d.name.text = some fields ∧
    FieldsTyped c d.fields fields
  funs_nodup : (p.funs.map (·.name.text)).Nodup
  funs : c.funs = p.funs.map fun f => (f.name.text, f.signature)

theorem find?_of_nodup {α : Type} {name : α → String} {l : List α} (hl : (l.map name).Nodup) {a : α}
    (ha : a ∈ l) : l.find? (fun b => name b = name a) = some a := by
  induction l with
  | nil => cases ha
  | cons b l ih =>
    obtain ⟨hb, hl⟩ := List.nodup_cons.mp hl
    rcases List.mem_cons.mp ha with rfl | ha
    · simp
    · have hne : name b ≠ name a := fun h => hb (h ▸ List.mem_map_of_mem ha)
      rw [List.find?_cons_of_neg (by simpa using hne)]
      exact ih hl ha

namespace Program.Declared

variable {p : Program} {c : Catalog} {name : String}

theorem hasRecord_iff (h : p.Declared c) :
    c.hasRecord name = true ↔ ∃ d ∈ p.records, d.name.text = name := by
  rw [hasRecord, Table.has_iff, h.records, List.mem_map]

/-- A record has one declaration, which is both the first and the last of its name. -/
theorem find_record (h : p.Declared c) {d : RecordDecl} (hd : d ∈ p.records) :
    p.records.find? (·.name.text = d.name.text) = some d ∧
      (Declarations.mk c p.records).record? d.name.text = some d := by
  refine ⟨find?_of_nodup h.records_nodup hd, ?_⟩
  have hnd : (p.records.reverse.map (·.name.text)).Nodup := by
    rw [List.map_reverse]
    exact (List.reverse_perm _).nodup_iff.mpr h.records_nodup
  exact find?_of_nodup hnd (List.mem_reverse.mpr hd)

theorem find_fun (h : p.Declared c) {f : FunDecl} (hf : f ∈ p.funs) :
    p.funs.find? (·.name.text = f.name.text) = some f :=
  find?_of_nodup h.funs_nodup hf

theorem fun?_eq_some_iff (h : p.Declared c) {sig : Signature} :
    c.fun? name = some sig ↔ ∃ f ∈ p.funs, f.name.text = name ∧ f.signature = sig := by
  have hnd : c.funs.names.Nodup := by
    rw [h.funs, Table.names, List.map_map]
    exact h.funs_nodup
  rw [fun?, Table.get?_eq_some_iff hnd, h.funs, List.mem_map]
  simp only [Prod.mk.injEq]

end Program.Declared

theorem Program.Catalogued.declared {p : Program} {c : Catalog} (h : p.Catalogued c) :
    p.Declared c := by
  obtain ⟨hrecords, hfuns, _⟩ := List.nodup_append.mp h.names.1
  have hnames := names_of_entries h.records
  refine ⟨hrecords, hnames, ?_, hfuns, h.funs⟩
  intro d hd
  obtain ⟨⟨name, fields⟩, hmem, rfl, hfields⟩ := exists_of_forall₂ h.records hd
  obtain ⟨hnames', _, htypes⟩ := fieldTypes_eq_ok hfields
  exact ⟨fields, (Table.get?_eq_some_iff (hnames ▸ hrecords)).mpr hmem, hnames', htypes⟩

/-- The catalog in which records have no fields yet. -/
def Program.bareCatalog (p : Program) : Catalog :=
  ⟨p.records.map fun d => (d.name.text, []), p.funs.map fun f => (f.name.text, f.signature)⟩

theorem Program.bareCatalog_names (p : Program) :
    p.bareCatalog.records.names = p.records.map (·.name.text) := by
  rw [bareCatalog, Table.names, List.map_map]
  rfl

theorem Program.bareCatalog_eq_ok_iff {p : Program} {c : Catalog} :
    (do
      let c ← p.records.foldlM addRecord .empty
      p.funs.foldlM addFun c) = .ok c ↔
    Catalog.empty.AllFree (p.records.map (·.name.text) ++ p.funs.map (·.name.text)) ∧
      (∀ f ∈ p.funs, p.bareCatalog.signature f = .ok f.signature) ∧ c = p.bareCatalog := by
  have hdeclared : ∀ y, isDeclared ⟨p.records.map fun d => (d.name.text, []), []⟩ y =
      (Catalog.empty.isDeclared y || decide (y ∈ p.records.map (·.name.text))) := by
    intro y
    rw [Bool.eq_iff_iff]
    simp [isDeclared, Catalog.empty, Table.has_iff, Table.names]
  have hsig : ∀ f, signature ⟨p.records.map fun d => (d.name.text, []), []⟩ f =
      p.bareCatalog.signature f := signature_congr fun _ => rfl
  rw [bind_eq_ok, allFree_append hdeclared]
  simp only [foldlM_addRecord_iff, foldlM_addFun_iff]
  constructor
  · rintro ⟨_, ⟨hrecords, rfl⟩, hsigs, hfuns, rfl⟩
    exact ⟨⟨hrecords, hfuns⟩, fun f hf => hsig f ▸ hsigs f hf, rfl⟩
  · rintro ⟨⟨hrecords, hfuns⟩, hsigs, rfl⟩
    exact ⟨_, ⟨hrecords, rfl⟩, fun f hf => (hsig f).trans (hsigs f hf), hfuns, rfl⟩

theorem Program.catalog_eq_ok_iff {p : Program} {c : Catalog} :
    p.catalog = .ok c ↔ p.Catalogued c ∧ ∀ d ∈ p.records, p.checkConstruction d = .ok () := by
  have hround : ∀ c', Catalog.empty.AllFree
        (p.records.map (·.name.text) ++ p.funs.map (·.name.text)) →
      (p.records.foldlM addFields p.bareCatalog = .ok c' ↔ ∃ entries,
        List.Forall₂ p.bareCatalog.EntryOf p.records entries ∧
          c' = ⟨entries, p.bareCatalog.funs⟩) := by
    intro c' hfree
    have hnd : (Table.names ([] : Table (Table Ty)) ++ p.records.map (·.name.text)).Nodup :=
      (List.nodup_append.mp hfree.1).1
    exact foldlM_addFields_iff hnd (.refl _)
  unfold catalog
  constructor
  · intro h
    obtain ⟨c₁, h₁, h⟩ := bind_eq_ok.mp h
    obtain ⟨c₂, h₂, h⟩ := bind_eq_ok.mp h
    obtain ⟨c₃, h₃, h⟩ := bind_eq_ok.mp h
    obtain ⟨_, hconstruct, h⟩ := bind_eq_ok.mp h
    cases h
    obtain ⟨hfree, hsigs, rfl⟩ := bareCatalog_eq_ok_iff.mp (bind_eq_ok.mpr ⟨c₁, h₁, h₂⟩)
    obtain ⟨entries, hentries, rfl⟩ := (hround _ hfree).mp h₃
    have hsame : SameNames p.bareCatalog ⟨entries, p.bareCatalog.funs⟩ :=
      .of_names rfl ((names_of_entries hentries).trans p.bareCatalog_names.symm)
    refine ⟨⟨hfree, ?_, rfl, hentries.imp fun _ _ => hsame.entryOf⟩, forM_eq_ok.mp hconstruct⟩
    intro f hf
    rw [signature_congr hsame.records]
    exact hsigs f hf
  · rintro ⟨h, hconstruct⟩
    have hsame : SameNames p.bareCatalog c :=
      .of_names h.funs ((names_of_entries h.records).trans p.bareCatalog_names.symm)
    have hsigs : ∀ f ∈ p.funs, p.bareCatalog.signature f = .ok f.signature := by
      intro f hf
      rw [← signature_congr hsame.records]
      exact h.signatures f hf
    obtain ⟨c₁, h₁, h₂⟩ := bind_eq_ok.mp (bareCatalog_eq_ok_iff.mpr ⟨h.names, hsigs, rfl⟩)
    have h₃ := (hround c h.names).mpr
      ⟨c.records, h.records.imp fun _ _ => hsame.symm.entryOf, by rw [← hsame.funs]⟩
    exact bind_eq_ok.mpr ⟨c₁, h₁, bind_eq_ok.mpr ⟨_, h₂, bind_eq_ok.mpr ⟨c, h₃,
      bind_eq_ok.mpr ⟨(), forM_eq_ok.mpr hconstruct, rfl⟩⟩⟩⟩

theorem Program.checkMain_eq_ok_iff {p : Program} {c : Catalog} :
    p.checkMain c = .ok () ↔
      ∃ sig, c.fun? "main" = some sig ∧ sig.params = [] ∧ sig.ret = .void := by
  unfold checkMain
  cases c.fun? "main" with
  | none => simp
  | some sig => simp

theorem Program.check_eq_ok_iff {p : Program} {c : Catalog} :
    p.check = .ok c ↔
      p.Catalogued c ∧ (∀ d ∈ p.records, p.checkConstruction d = .ok ()) ∧
        (∃ sig, c.fun? "main" = some sig ∧ sig.params = [] ∧ sig.ret = .void) ∧
        ∀ f ∈ p.funs, f.check c = .ok () := by
  rw [← checkMain_eq_ok_iff]
  constructor
  · intro h
    obtain ⟨c₁, hc, h⟩ := bind_eq_ok.mp h
    obtain ⟨_, hmain, h⟩ := bind_eq_ok.mp h
    obtain ⟨_, hfuns, h⟩ := bind_eq_ok.mp h
    cases h
    obtain ⟨hcat, hconstruct⟩ := catalog_eq_ok_iff.mp hc
    exact ⟨hcat, hconstruct, hmain, forM_eq_ok.mp hfuns⟩
  · rintro ⟨hcat, hconstruct, hmain, hfuns⟩
    have hc := catalog_eq_ok_iff.mpr ⟨hcat, hconstruct⟩
    exact bind_eq_ok.mpr ⟨c, hc, bind_eq_ok.mpr ⟨(), hmain,
      bind_eq_ok.mpr ⟨(), forM_eq_ok.mpr hfuns, rfl⟩⟩⟩

theorem Program.check_eq_ok {p : Program} {c : Catalog} (h : p.check = .ok c) :
    p.Declared c ∧ (∀ d ∈ p.records, p.checkConstruction d = .ok ()) ∧
      (∃ sig, c.fun? "main" = some sig ∧ sig.params = [] ∧ sig.ret = .void) ∧
      ∀ f ∈ p.funs, f.check c = .ok () :=
  (check_eq_ok_iff.mp h).imp_left Catalogued.declared

end RecordLang

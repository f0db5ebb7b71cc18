import RecordLang.Proofs.Balance.Depths
import RecordLang.Proofs.Typing.Acyclic
import RecordLang.Proofs.Typing.Expressions

/-! # Code of checked expressions

An expression that has been checked has code, and the code puts one value on the stack. On the way
the stack grows by no more than there are nodes in the expression and in the records.
-/

namespace RecordLang

mutual

def Expr.nodes : Expr → Nat
  | .single _ first _ => first.nodes + 1
  | .chain _ first _ _ rest _ => first.nodes + rest.nodes + 1

def Term.nodes : Term → Nat
  | .literal _ _ => 1
  | .construct _ => 1
  | .path _ => 1
  | .call _ args => argNodes args + 1
  | .neg operand _ => operand.nodes + 1
  | .paren inner => inner.nodes + 1

def argNodes : List Expr → Nat
  | [] => 0
  | arg :: args => arg.nodes + argNodes args

end

def Binding.nodes (b : Binding) : Nat := b.init.nodes + 1

def RecordDecl.nodes (d : RecordDecl) : Nat := (d.fields.map Binding.nodes).sum + 1

theorem Expr.nodes_pos (e : Expr) : 0 < e.nodes := by
  cases e with
  | single => exact Nat.succ_pos _
  | chain => exact Nat.succ_pos _

theorem length_le_argNodes (args : List Expr) : args.length ≤ argNodes args := by
  induction args with
  | nil => exact Nat.le_refl 0
  | cons arg args ih =>
    have := arg.nodes_pos
    simp only [List.length_cons, argNodes]
    omega

/-- The functions of a catalog are known with the numbers of their parameters. -/
def Catalog.Arities (c : Catalog) (arity : String → Option Nat) : Prop :=
  ∀ name sig, c.fun? name = some sig → arity name = some sig.params.length

variable {c : Catalog} {arity : String → Option Nat} {top room w d e : Nat} {Γ : Scopes Meaning}
  {slots : Scopes Nat} {construct : Ident → Except CompileError Code}

/-! ## Expressions have code -/

def HasSlots (Γ : Scopes Meaning) (slots : Scopes Nat) : Prop :=
  ∀ x ty, Γ.find? x = some (.variable ty) → ∃ slot, slots.find? x = some slot

theorem HasSlots.slotOf (hs : HasSlots Γ slots) {name : Ident} {ty : Ty}
    (hx : Γ.find? name.text = some (.variable ty)) : ∃ slot, slotOf slots name = .ok slot := by
  obtain ⟨slot, hslot⟩ := hs _ _ hx
  exact ⟨slot, by rw [RecordLang.slotOf, hslot]⟩

theorem HasSlots.exists_pathCode (hs : HasSlots Γ slots) {names : List Ident} {ty : Ty}
    (h : c.pathType Γ names = .ok ty) : ∃ code, pathCode slots names = .ok code := by
  cases names with
  | nil => cases h
  | cons head fields =>
    simp only [Catalog.pathType] at h
    split at h
    next ty' hx =>
      obtain ⟨slot, hslot⟩ := hs.slotOf hx
      exact ⟨_, bind_eq_ok.mpr ⟨slot, hslot, rfl⟩⟩
    next => cases h
    next => cases h

mutual

theorem Expr.exists_codeWith (hs : HasSlots Γ slots) (e : Expr) {ty : Ty} (h : e.type c Γ = .ok ty)
    (hcon : ∀ r ∈ e.constructions, c.hasRecord r.text = true → ∃ code, construct r = .ok code) :
    ∃ code, e.codeWith construct slots = .ok code := by
  match e with
  | .single negated first p =>
    obtain ⟨t, ht, _⟩ := bind_eq_ok.mp h
    obtain ⟨left, hleft⟩ := first.exists_codeWith hs ht hcon
    exact ⟨_, bind_eq_ok.mpr ⟨left, hleft, rfl⟩⟩
  | .chain negated first op opPos rest p =>
    obtain ⟨tl, htl, h⟩ := bind_eq_ok.mp h
    obtain ⟨tr, htr, _⟩ := bind_eq_ok.mp h
    obtain ⟨left, hleft⟩ := first.exists_codeWith hs htl fun r hr =>
      hcon r (List.mem_append_left _ hr)
    obtain ⟨right, hright⟩ := rest.exists_codeWith hs htr fun r hr =>
      hcon r (List.mem_append_right _ hr)
    exact ⟨_, bind_eq_ok.mpr ⟨left, hleft, bind_eq_ok.mpr ⟨right, hright, rfl⟩⟩⟩

theorem Term.exists_codeWith (hs : HasSlots Γ slots) (t : Term) {ty : Ty} (h : t.type c Γ = .ok ty)
    (hcon : ∀ r ∈ t.constructions, c.hasRecord r.text = true → ∃ code, construct r = .ok code) :
    ∃ code, t.codeWith construct slots = .ok code := by
  match t with
  | .literal v p => exact ⟨_, rfl⟩
  | .construct r =>
    unfold Term.type at h
    split at h
    next hr => exact hcon r (.head _) hr
    next => cases h
  | .path names => exact hs.exists_pathCode h
  | .call fn args =>
    obtain ⟨callee, _, hlen, hargs, _⟩ := callType_eq_ok h
    obtain ⟨code, hcode⟩ := exists_argsCodeWith hs args hargs hlen hcon
    exact ⟨_, bind_eq_ok.mpr ⟨code, hcode, rfl⟩⟩
  | .neg operand p =>
    obtain ⟨t, ht, _⟩ := bind_eq_ok.mp h
    obtain ⟨code, hcode⟩ := operand.exists_codeWith hs ht hcon
    exact ⟨_, bind_eq_ok.mpr ⟨code, hcode, rfl⟩⟩
  | .paren inner => exact inner.exists_codeWith hs h hcon

theorem exists_argsCodeWith (hs : HasSlots Γ slots) (args : List Expr) {demands : List Demand}
    (h : checkArgs c Γ args demands = .ok ()) (hlen : args.length = demands.length)
    (hcon : ∀ r ∈ argConstructions args, c.hasRecord r.text = true →
      ∃ code, construct r = .ok code) :
    ∃ code, argsCodeWith construct slots args = .ok code := by
  match args, demands with
  | [], _ => exact ⟨_, rfl⟩
  | _ :: _, [] => cases hlen
  | arg :: args, demand :: demands =>
    obtain ⟨found, hfound, _, hrest⟩ := checkArgs_cons h
    obtain ⟨first, hfirst⟩ := arg.exists_codeWith hs hfound fun r hr =>
      hcon r (List.mem_append_left _ hr)
    obtain ⟨more, hmore⟩ := exists_argsCodeWith hs args hrest (Nat.succ.inj hlen) fun r hr =>
      hcon r (List.mem_append_right _ hr)
    exact ⟨_, bind_eq_ok.mpr ⟨first, hfirst, bind_eq_ok.mpr ⟨more, hmore, rfl⟩⟩⟩

end

/-! ## Code of expressions puts one value on the stack -/

/-- The code puts `count` values on the stack if there is `room` for it below `top`. -/
def Adds (arity : String → Option Nat) (top room count : Nat) (code : Code) : Prop :=
  ∀ d, d + room ≤ top → Leads arity top d (emits code) (d + count)

def Puts (arity : String → Option Nat) (top room : Nat) (x : Except CompileError Code) : Prop :=
  ∃ code, x = .ok code ∧ Adds arity top room 1 code

theorem Adds.mono {room' count : Nat} {code : Code} (h : Adds arity top room count code)
    (hle : room ≤ room') : Adds arity top room' count code := fun d hd => h d (by omega)

theorem Puts.adds {x : Except CompileError Code} {code : Code} (h : Puts arity top room x)
    (hok : x = .ok code) : Adds arity top room 1 code := by
  obtain ⟨code', hcode', hadds⟩ := h
  obtain rfl := Except.ok.inj (hok.symm.trans hcode')
  exact hadds

section Pieces

theorem Leads.load {slot : Nat} {ds : List Directive} (hd : d ≤ top)
    (h : Leads arity top (d + 1) ds e) : Leads arity top d (.emit (.load slot) :: ds) e :=
  .emit rfl rfl rfl (Nat.zero_le d) rfl hd h

theorem Leads.store {slot : Nat} {ds : List Directive} (hd : d + 1 ≤ top)
    (h : Leads arity top d ds e) : Leads arity top (d + 1) (.emit (.store slot) :: ds) e :=
  .emit rfl rfl rfl (by omega) rfl hd h

theorem Leads.push {v : Value} {ds : List Directive} (hd : d ≤ top)
    (h : Leads arity top (d + 1) ds e) : Leads arity top d (.emit (.push v) :: ds) e :=
  .emit rfl rfl rfl (Nat.zero_le d) rfl hd h

theorem Leads.binary {op : BinOp} {ds : List Directive} (hd : d + 2 ≤ top)
    (h : Leads arity top (d + 1) ds e) : Leads arity top (d + 2) (.emit (.binary op) :: ds) e :=
  .emit rfl rfl rfl (by omega) rfl hd h

theorem getFields_leads (fields : List Ident) (hd : d + 1 ≤ top) :
    Leads arity top (d + 1) (emits (fields.map fun f => .getField f.text)) (d + 1) := by
  induction fields with
  | nil => exact .nil hd
  | cons f fields ih => exact .emit rfl rfl rfl (by omega) rfl hd ih

theorem loadPath_leads (slot : Nat) (fields : List Ident) (hd : d + 1 ≤ top) :
    Leads arity top d (emits (loadPath slot fields)) (d + 1) :=
  .load (by omega) (getFields_leads fields hd)

theorem negation_leads (negated : Bool) (hd : d + 1 ≤ top) :
    Leads arity top (d + 1) (emits (negation negated)) (d + 1) := by
  cases negated with
  | false => exact .nil hd
  | true => exact .emit rfl rfl rfl (by omega) rfl hd (.nil hd)

theorem Builtin.code_leads (b : Builtin) {n : Nat} (hn : n = b.params.length)
    (hd : d + n + 1 ≤ top) : Leads arity top (d + n) (emits b.code) (d + 1) := by
  cases b with
  | print =>
    obtain rfl : n = 1 := hn
    exact .emit rfl rfl rfl (by omega) rfl (by omega) (.push (by omega) (.nil (by omega)))
  | read =>
    obtain rfl : n = 0 := hn
    exact .emit rfl rfl rfl (by omega) rfl (by omega) (.nil (by omega))
  | get =>
    obtain rfl : n = 2 := hn
    exact .emit rfl rfl rfl (by omega) rfl (by omega) (.nil (by omega))
  | _ =>
    obtain rfl : n = 1 := hn
    exact .emit rfl rfl rfl (by omega) rfl (by omega) (.nil (by omega))

theorem applyCode_leads (ha : c.Arities arity) {fn : String} {callee : Callee}
    (h : c.callee? fn = some callee) (hd : d + callee.demands.length + 1 ≤ top) :
    Leads arity top (d + callee.demands.length) (emits (applyCode fn)) (d + 1) := by
  unfold Catalog.callee? at h
  unfold applyCode
  cases hb : Builtin.ofName? fn with
  | some b =>
    rw [hb] at h
    cases h
    exact b.code_leads (List.length_map _) hd
  | none =>
    rw [hb] at h
    obtain ⟨sig, hsig, rfl⟩ := Option.map_eq_some_iff.mp h
    rw [List.length_map] at hd ⊢
    have heffect : (Instruction.call fn).effect? arity = some (sig.params.length, 1) := by
      rw [Instruction.effect?, ha fn sig hsig]
      rfl
    exact .emit rfl rfl heffect (by omega) (by omega) (by omega) (.nil (by omega))

end Pieces

mutual

theorem Expr.adds (ha : c.Arities arity) (e : Expr) {ty : Ty} (h : e.type c Γ = .ok ty)
    {code : Code} (hok : e.codeWith construct slots = .ok code)
    (hcon : ∀ r ∈ e.constructions, c.hasRecord r.text = true → Puts arity top w (construct r)) :
    Adds arity top (e.nodes + w) 1 code := by
  intro d hd
  match e with
  | .single negated first p =>
    obtain ⟨t, ht, _⟩ := bind_eq_ok.mp h
    obtain ⟨left, hleft, hok⟩ := bind_eq_ok.mp hok
    cases hok
    simp only [Expr.nodes] at hd
    rw [emits_append]
    exact (first.adds ha ht hleft hcon d (by omega)).append (negation_leads negated (by omega))
  | .chain negated first op opPos rest p =>
    obtain ⟨tl, htl, h⟩ := bind_eq_ok.mp h
    obtain ⟨tr, htr, _⟩ := bind_eq_ok.mp h
    obtain ⟨left, hleft, hok⟩ := bind_eq_ok.mp hok
    obtain ⟨right, hright, hok⟩ := bind_eq_ok.mp hok
    cases hok
    simp only [Expr.nodes] at hd
    have hpos := rest.nodes_pos
    have hfirst := first.adds ha htl hleft (fun r hr => hcon r (List.mem_append_left _ hr)) d
      (by omega)
    have hrest := rest.adds ha htr hright (fun r hr => hcon r (List.mem_append_right _ hr)) (d + 1)
      (by omega)
    rw [emits_append, emits_append, emits_cons]
    refine (hfirst.append hrest).append ?_
    exact .binary (by omega) (negation_leads negated (by omega))

theorem Term.adds (ha : c.Arities arity) (t : Term) {ty : Ty} (h : t.type c Γ = .ok ty)
    {code : Code} (hok : t.codeWith construct slots = .ok code)
    (hcon : ∀ r ∈ t.constructions, c.hasRecord r.text = true → Puts arity top w (construct r)) :
    Adds arity top (t.nodes + w) 1 code := by
  match t with
  | .literal v p =>
    cases hok
    intro d hd
    simp only [Term.nodes] at hd
    exact .push (by omega) (.nil (by omega))
  | .construct r =>
    unfold Term.type at h
    split at h
    next hr => exact ((hcon r (.head _) hr).adds hok).mono (Nat.le_add_left w _)
    next => cases h
  | .path [] => cases hok
  | .path (head :: fields) =>
    obtain ⟨slot, _, hok⟩ := bind_eq_ok.mp hok
    cases hok
    intro d hd
    simp only [Term.nodes] at hd
    exact loadPath_leads slot fields (by omega)
  | .call fn args =>
    obtain ⟨callee, hcallee, hlen, hargs, _⟩ := callType_eq_ok h
    obtain ⟨argsCode, hargsCode, hok⟩ := bind_eq_ok.mp hok
    cases hok
    intro d hd
    simp only [Term.nodes] at hd
    have hbelow := args_add ha args hargs hlen hargsCode hcon d (by omega)
    have hle := length_le_argNodes args
    rw [hlen] at hbelow hle
    rw [emits_append]
    exact hbelow.append (applyCode_leads ha hcallee (by omega))
  | .neg operand p =>
    obtain ⟨t, ht, _⟩ := bind_eq_ok.mp h
    obtain ⟨inner, hinner, hok⟩ := bind_eq_ok.mp hok
    cases hok
    intro d hd
    simp only [Term.nodes] at hd
    rw [emits_append]
    refine (operand.adds ha ht hinner hcon d (by omega)).append ?_
    exact .emit rfl rfl rfl (by omega) rfl (by omega) (.nil (by omega))
  | .paren inner => exact (inner.adds ha h hok hcon).mono (by simp only [Term.nodes]; omega)

theorem args_add (ha : c.Arities arity) (args : List Expr) {demands : List Demand}
    (h : checkArgs c Γ args demands = .ok ()) (hlen : args.length = demands.length) {code : Code}
    (hok : argsCodeWith construct slots args = .ok code)
    (hcon : ∀ r ∈ argConstructions args, c.hasRecord r.text = true →
      Puts arity top w (construct r)) :
    Adds arity top (argNodes args + w) args.length code := by
  intro d hd
  match args, demands with
  | [], _ =>
    cases hok
    exact .nil (by omega)
  | _ :: _, [] => cases hlen
  | arg :: args, demand :: demands =>
    obtain ⟨found, hfound, _, hrest⟩ := checkArgs_cons h
    obtain ⟨first, hfirst, hok⟩ := bind_eq_ok.mp hok
    obtain ⟨more, hmore, hok⟩ := bind_eq_ok.mp hok
    cases hok
    simp only [argNodes] at hd
    have hpos := arg.nodes_pos
    have harg := arg.adds ha hfound hfirst (fun r hr => hcon r (List.mem_append_left _ hr)) d
      (by omega)
    have hargs := args_add ha args hrest (Nat.succ.inj hlen) hmore
      (fun r hr => hcon r (List.mem_append_right _ hr)) (d + 1) (by omega)
    rw [Nat.add_assoc, Nat.add_comm 1] at hargs
    rw [emits_append]
    exact harg.append hargs

end

/-! ## Constructions -/

section Constructions

variable {p : Program}

/-- The initializers of fields store what they put on the stack into the record below it. -/
theorem fieldsCode_leads (ha : c.Arities arity) (hs : HasSlots Γ slots) {fields : List Binding}
    (h : ∀ b ∈ fields, ∃ ty, b.init.type c Γ = .ok ty)
    (hcon : ∀ b ∈ fields, ∀ r ∈ b.init.constructions, c.hasRecord r.text = true →
      Puts arity top w (construct r)) :
    ∃ code, Declarations.fieldsCode construct slots fields = .ok code ∧
      ∀ d, d + 1 + (fields.map Binding.nodes).sum + w ≤ top →
        Leads arity top (d + 1) (emits code) (d + 1) := by
  induction fields with
  | nil => exact ⟨[], rfl, fun d hd => .nil (by omega)⟩
  | cons field rest ih =>
    obtain ⟨ty, hty⟩ := h field (.head _)
    obtain ⟨init, hinit⟩ := field.init.exists_codeWith hs hty fun r hr hrec =>
      (hcon field (.head _) r hr hrec).imp fun _ => And.left
    have hadds := field.init.adds ha hty hinit (hcon field (.head _))
    obtain ⟨more, hmore, hleads⟩ := ih (fun b hb => h b (.tail _ hb))
      (fun b hb => hcon b (.tail _ hb))
    refine ⟨.dup :: init ++ .setField field.name.text :: more,
      bind_eq_ok.mpr ⟨init, hinit, bind_eq_ok.mpr ⟨more, hmore, rfl⟩⟩, ?_⟩
    intro d hd
    rw [List.map_cons, List.sum_cons, Binding.nodes] at hd
    have hpos := field.init.nodes_pos
    rw [emits_append, emits_cons, emits_cons]
    have hdup : Leads arity top (d + 1) (.emit .dup :: emits init) (d + 3) :=
      .emit rfl rfl rfl (by omega) rfl (by omega) (hadds (d + 2) (by omega))
    refine hdup.append ?_
    exact .emit rfl rfl rfl (by omega) rfl (by omega) (hleads d (by omega))

def Program.recordNodes (p : Program) : Nat := (p.records.map RecordDecl.nodes).sum

def Program.nodesOf (p : Program) (name : String) : Nat :=
  match p.records.find? (·.name.text = name) with
  | some d => d.nodes
  | none => 0

/-- What the code of a program relies on: its declarations are in the catalog, no record makes
itself, and the functions are known. -/
structure Program.Settled (p : Program) (c : Catalog) (arity : String → Option Nat) : Prop where
  declared : p.Declared c
  acyclic : ∀ d ∈ p.records, p.checkConstruction d = .ok ()
  arities : c.Arities arity

/-- All records that are made when the record `name` is made are among `avail`. -/
def Program.MadeFrom (p : Program) (c : Catalog) (avail : List String) (name : String) : Prop :=
  ∀ x, Relation.ReflTransGen p.Makes name x → c.hasRecord x = true → x ∈ avail

namespace Program.Settled

theorem madeFrom_erase (hp : p.Settled c arity) {avail : List String} {x y : String}
    (h : p.MadeFrom c avail x) (hy : p.Makes x y) : p.MadeFrom c (avail.erase x) y := by
  intro z hz hrec
  have hne : z ≠ x := by
    rintro rfl
    exact makes_acyclic hp.declared.records_nodup hp.acyclic _ (.head' hy hz)
  exact (List.mem_erase_of_ne hne).mpr (h z (.head hy hz) hrec)

/-- The records that may be made bound both how deep constructions nest and how far the stack
grows. -/
theorem constructCode_puts (hp : p.Settled c arity) (slots : Scopes Nat) {nesting : Nat}
    {avail : List String} {name : Ident} (hlen : avail.length ≤ nesting)
    (hname : c.hasRecord name.text = true) (havail : p.MadeFrom c avail name.text) :
    Puts arity top (avail.map p.nodesOf).sum
      (Declarations.constructCode ⟨c, p.records⟩ slots nesting name) := by
  have hmem := havail name.text .refl hname
  induction nesting generalizing avail name with
  | zero =>
    have := List.length_pos_of_mem hmem
    omega
  | succ nesting ih =>
    obtain ⟨decl, hdecl, heq⟩ := hp.declared.hasRecord_iff.mp hname
    obtain ⟨hfind, hrecord⟩ := hp.declared.find_record hdecl
    obtain ⟨fields, hfields, htyped⟩ := hp.declared.fields decl hdecl
    rw [heq] at hfind hrecord hfields
    have hnodes : p.nodesOf name.text = decl.nodes := by
      rw [nodesOf, hfind]
    have hsum := ((List.perm_cons_erase hmem).map p.nodesOf).sum_nat
    rw [List.map_cons, List.sum_cons, hnodes, RecordDecl.nodes] at hsum
    have hcon : ∀ b ∈ decl.fields, ∀ r ∈ b.init.constructions, c.hasRecord r.text = true →
        Puts arity top ((avail.erase name.text).map p.nodesOf).sum
          (Declarations.constructCode ⟨c, p.records⟩ slots nesting r) := by
      intro b hb r hr hrec
      have hmakes : p.Makes name.text r.text := by
        refine ⟨r, ?_, rfl⟩
        rw [constructions, hfind]
        exact List.mem_flatMap.mpr ⟨b, hb, hr⟩
      have havail' := hp.madeFrom_erase havail hmakes
      refine ih ?_ hrec havail' (havail' _ .refl hrec)
      rw [List.length_erase_of_mem hmem]
      omega
    have htypes : ∀ b ∈ decl.fields, ∃ ty, b.init.type c c.globals = .ok ty := by
      intro b hb
      obtain ⟨_, _, hty⟩ := htyped.types b hb
      obtain ⟨found, hfound, _⟩ := bind_eq_ok.mp hty
      exact ⟨found, hfound⟩
    have hnone : HasSlots c.globals slots := fun x ty hx => absurd hx (c.globals_find?_ne x ty)
    obtain ⟨more, hmore, hleads⟩ := fieldsCode_leads hp.arities hnone htypes hcon
    refine ⟨.alloc fields.names :: more, ?_, ?_⟩
    · unfold Declarations.constructCode
      simp only [hfields, hrecord]
      exact bind_eq_ok.mpr ⟨more, hmore, rfl⟩
    · intro d hd
      exact .emit rfl rfl rfl (by omega) rfl (by omega) (hleads d (by omega))

theorem construct_puts (hp : p.Settled c arity) (top : Nat) (slots : Scopes Nat) {name : Ident}
    (hname : c.hasRecord name.text = true) :
    Puts arity top p.recordNodes
      (Declarations.constructCode ⟨c, p.records⟩ slots p.records.length name) := by
  have hsum : (p.records.map (·.name.text)).map p.nodesOf = p.records.map RecordDecl.nodes := by
    rw [List.map_map]
    apply List.map_congr_left
    intro d hd
    rw [Function.comp_apply, nodesOf, (hp.declared.find_record hd).1]
  rw [recordNodes, ← hsum]
  refine hp.constructCode_puts slots (Nat.le_of_eq (List.length_map _)) hname ?_
  intro x _ hx
  exact List.mem_map.mpr (hp.declared.hasRecord_iff.mp hx)

theorem exists_code (hp : p.Settled c arity) (hs : HasSlots Γ slots) {e : Expr} {ty : Ty}
    (h : e.type c Γ = .ok ty) : ∃ code, e.code ⟨c, p.records⟩ slots = .ok code :=
  e.exists_codeWith hs h fun _ _ hr => (hp.construct_puts 0 slots hr).imp fun _ => And.left

theorem exists_callCode (hp : p.Settled c arity) (hs : HasSlots Γ slots) {fn : Ident}
    {args : List Expr} {ty : Ty} (h : callType c Γ fn args = .ok ty) :
    ∃ code, callCode ⟨c, p.records⟩ slots fn args = .ok code :=
  Term.exists_codeWith hs (.call fn args) h fun _ _ hr =>
    (hp.construct_puts 0 slots hr).imp fun _ => And.left

theorem code_adds (hp : p.Settled c arity) (top : Nat) {e : Expr} {ty : Ty} {code : Code}
    (h : e.type c Γ = .ok ty) (hok : e.code ⟨c, p.records⟩ slots = .ok code) :
    Adds arity top (e.nodes + p.recordNodes) 1 code :=
  e.adds hp.arities h hok fun _ _ => hp.construct_puts top slots

theorem callCode_adds (hp : p.Settled c arity) (top : Nat) {fn : Ident} {args : List Expr} {ty : Ty}
    {code : Code} (h : callType c Γ fn args = .ok ty)
    (hok : callCode ⟨c, p.records⟩ slots fn args = .ok code) :
    Adds arity top (argNodes args + 1 + p.recordNodes) 1 code :=
  Term.adds hp.arities (.call fn args) h hok fun _ _ => hp.construct_puts top slots

end Program.Settled

end Constructions

end RecordLang

import RecordLang.Proofs.Assembly.Labels
import RecordLang.Proofs.Compile.Slots

/-! # Instructions of generated code

The code of an expression does nothing but compute: it does not jump, return or store, and it loads
variables in scope only. The code of a statement uses no slot that has not been given out, and takes
one for each variable that is declared outside dead code.
-/

namespace RecordLang

open Generator

/-- The instructions that the code of expressions consists of. -/
def Instruction.Computes (slots : Scopes Nat) : Instruction → Prop
  | .load n => n ∈ slots.meanings
  | .store _ | .jump _ | .jumpIfFalse _ | .ret => False
  | _ => True

def Computes (slots : Scopes Nat) (code : Code) : Prop := ∀ i ∈ code, i.Computes slots

namespace Instruction.Computes

variable {i : Instruction} {slots : Scopes Nat}

theorem target?_eq_none (h : i.Computes slots) : i.target? = none := by
  cases i <;> first | rfl | cases h

theorem ne_store (h : i.Computes slots) (n : Nat) : i ≠ .store n := by
  rintro rfl
  cases h

theorem slot_mem (h : i.Computes slots) {n : Nat} (hn : i.slot? = some n) : n ∈ slots.meanings := by
  cases i with
  | load k =>
    cases hn
    exact h
  | store => cases h
  | _ => cases hn

end Instruction.Computes

namespace Computes

variable {slots : Scopes Nat} {code code' : Code}

theorem nil : Computes slots [] := nofun

theorem cons {i : Instruction} (hi : i.Computes slots) (h : Computes slots code) :
    Computes slots (i :: code) :=
  List.forall_mem_cons.mpr ⟨hi, h⟩

theorem append (h : Computes slots code) (h' : Computes slots code') :
    Computes slots (code ++ code') :=
  List.forall_mem_append.mpr ⟨h, h'⟩

end Computes

/-! ## Expressions -/

section Expressions

variable {construct : Ident → Except CompileError Code} {slots : Scopes Nat} {code : Code}

theorem slotOf_mem {name : Ident} {slot : Nat} (h : slotOf slots name = .ok slot) :
    slot ∈ slots.meanings :=
  Scopes.mem_meanings_of_find? (slotOf_eq_ok h)

theorem negation_computes (negated : Bool) : Computes slots (negation negated) := by
  cases negated with
  | false => exact .nil
  | true => exact .cons trivial .nil

theorem loadPath_computes {slot : Nat} (hslot : slot ∈ slots.meanings) (fields : List Ident) :
    Computes slots (loadPath slot fields) := by
  refine .cons hslot ?_
  intro i hi
  obtain ⟨f, _, rfl⟩ := List.mem_map.mp hi
  trivial

theorem Builtin.code_computes (b : Builtin) : Computes slots b.code := by
  cases b with
  | print => exact .cons trivial (.cons trivial .nil)
  | _ => exact .cons trivial .nil

theorem applyCode_computes (fn : String) : Computes slots (applyCode fn) := by
  unfold applyCode
  split
  next b _ => exact b.code_computes
  next => exact .cons trivial .nil

mutual

theorem Expr.codeWith_computes (hc : ∀ name code, construct name = .ok code → Computes slots code)
    (e : Expr) {code : Code} (h : e.codeWith construct slots = .ok code) : Computes slots code := by
  match e with
  | .single negated first _ =>
    obtain ⟨left, hleft, h⟩ := bind_eq_ok.mp h
    cases h
    exact (first.codeWith_computes hc hleft).append (negation_computes negated)
  | .chain negated first op _ rest _ =>
    obtain ⟨left, hleft, h⟩ := bind_eq_ok.mp h
    obtain ⟨right, hright, h⟩ := bind_eq_ok.mp h
    cases h
    exact ((first.codeWith_computes hc hleft).append (rest.codeWith_computes hc hright)).append
      (.cons trivial (negation_computes negated))

theorem Term.codeWith_computes (hc : ∀ name code, construct name = .ok code → Computes slots code)
    (t : Term) {code : Code} (h : t.codeWith construct slots = .ok code) : Computes slots code := by
  match t with
  | .literal v _ =>
    cases h
    exact .cons trivial .nil
  | .construct r => exact hc r code h
  | .path [] => cases h
  | .path (head :: fields) =>
    obtain ⟨slot, hslot, h⟩ := bind_eq_ok.mp h
    cases h
    exact loadPath_computes (slotOf_mem hslot) fields
  | .call fn args =>
    obtain ⟨argsCode, hargs, h⟩ := bind_eq_ok.mp h
    cases h
    exact (argsCodeWith_computes hc args hargs).append (applyCode_computes fn.text)
  | .neg operand _ =>
    obtain ⟨inner, hinner, h⟩ := bind_eq_ok.mp h
    cases h
    exact (operand.codeWith_computes hc hinner).append (.cons trivial .nil)
  | .paren inner => exact inner.codeWith_computes hc h

theorem argsCodeWith_computes (hc : ∀ name code, construct name = .ok code → Computes slots code)
    (args : List Expr) {code : Code} (h : argsCodeWith construct slots args = .ok code) :
    Computes slots code := by
  match args with
  | [] =>
    cases h
    exact .nil
  | arg :: args =>
    obtain ⟨first, hfirst, h⟩ := bind_eq_ok.mp h
    obtain ⟨more, hmore, h⟩ := bind_eq_ok.mp h
    cases h
    exact (arg.codeWith_computes hc hfirst).append (argsCodeWith_computes hc args hmore)

end

theorem fieldsCode_computes (hc : ∀ name code, construct name = .ok code → Computes slots code)
    (fields : List Binding) (h : Declarations.fieldsCode construct slots fields = .ok code) :
    Computes slots code := by
  induction fields generalizing code with
  | nil =>
    cases h
    exact .nil
  | cons field rest ih =>
    obtain ⟨init, hinit, h⟩ := bind_eq_ok.mp h
    obtain ⟨more, hmore, h⟩ := bind_eq_ok.mp h
    cases h
    exact .cons trivial ((field.init.codeWith_computes hc hinit).append (.cons trivial (ih hmore)))

variable {d : Declarations}

theorem constructCode_eq_ok {nesting : Nat} {name : Ident}
    (h : d.constructCode slots nesting name = .ok code) :
    ∃ fields decl less more, d.catalog.fields? name.text = some fields ∧
      d.record? name.text = some decl ∧ nesting = less + 1 ∧
      Declarations.fieldsCode (d.constructCode slots less) slots decl.fields = .ok more ∧
      code = .alloc fields.names :: more := by
  unfold Declarations.constructCode at h
  split at h
  next fields decl hfields hdecl =>
    cases nesting with
    | zero => cases h
    | succ less =>
      obtain ⟨more, hmore, h⟩ := bind_eq_ok.mp h
      cases h
      exact ⟨fields, decl, less, more, hfields, hdecl, rfl, hmore, rfl⟩
  next => cases h

theorem constructCode_computes (nesting : Nat) (name : Ident) (code : Code)
    (h : d.constructCode slots nesting name = .ok code) : Computes slots code := by
  induction nesting generalizing name code with
  | zero =>
    obtain ⟨_, _, _, _, _, _, hless, _⟩ := constructCode_eq_ok h
    cases hless
  | succ nesting ih =>
    obtain ⟨_, _, _, _, _, _, hless, hmore, rfl⟩ := constructCode_eq_ok h
    cases hless
    exact .cons trivial (fieldsCode_computes ih _ hmore)

theorem Expr.code_computes {e : Expr} (h : e.code d slots = .ok code) : Computes slots code :=
  e.codeWith_computes (constructCode_computes _) h

theorem callCode_computes {fn : Ident} {args : List Expr}
    (h : callCode d slots fn args = .ok code) : Computes slots code :=
  Term.codeWith_computes (constructCode_computes _) _ h

theorem storeCode_slots {target : List Ident} (h : storeCode slots target = .ok code) :
    ∀ i ∈ code, i.target? = none ∧ ∀ n, i.slot? = some n → n ∈ slots.meanings := by
  cases target with
  | nil => cases h
  | cons head fields =>
    obtain ⟨slot, hslot, h⟩ := bind_eq_ok.mp h
    have hmem := slotOf_mem hslot
    split at h
    next =>
      cases h
      simpa [Instruction.slot?, Instruction.target?] using hmem
    next last _ =>
      cases h
      have hload := loadPath_computes hmem fields.dropLast
      refine List.forall_mem_append.mpr ⟨fun i hi => ⟨?_, fun n hn => ?_⟩, ?_⟩
      · exact (hload i hi).target?_eq_none
      · exact (hload i hi).slot_mem hn
      · simp [Instruction.slot?, Instruction.target?]

end Expressions

/-! ## Slots in statements -/

mutual

def Stmt.locals : Stmt → Nat
  | .declare _ => 1
  | .cond branches => branches.locals
  | .loop _ body => stmtLocals body
  | .count _ _ _ _ body => stmtLocals body + 1
  | _ => 0

/-- What stands behind a `return` in a row of statements is dead code. -/
def stmtLocals : List Stmt → Nat
  | [] => 0
  | s :: rest => if s.isReturn then 0 else s.locals + stmtLocals rest

def Branches.locals : Branches → Nat
  | .done => 0
  | .otherwise body => stmtLocals body
  | .branch _ body rest => stmtLocals body + rest.locals

end

def Directive.emitted? : Directive → Option Instruction
  | .emit i => some i
  | _ => none

/-- The instructions of a row of directives, apart from its jumps to labels. -/
def emitted (ds : List Directive) : Code := ds.filterMap Directive.emitted?

section Rows

variable (ds ds' : List Directive) (code : Code)

@[simp]
theorem emitted_nil : emitted [] = [] := rfl

@[simp]
theorem emitted_cons (dir : Directive) :
    emitted (dir :: ds) = dir.emitted?.toList ++ emitted ds := by
  cases dir <;> rfl

@[simp]
theorem emitted_append : emitted (ds ++ ds') = emitted ds ++ emitted ds' := List.filterMap_append

@[simp]
theorem emitted_emits : emitted (emits code) = code := by
  induction code with
  | nil => rfl
  | cons i code ih => exact congrArg (i :: ·) ih

variable {ds} in
theorem mem_emitted_of_slot {place : Nat → Nat} {i : Instruction} {n : Nat}
    (h : i ∈ linked place ds) (hn : i.slot? = some n) : i ∈ emitted ds := by
  obtain ⟨dir, hdir, hi⟩ := List.mem_flatMap.mp h
  refine List.mem_filterMap.mpr ⟨dir, hdir, ?_⟩
  cases dir with
  | emit j =>
    cases List.mem_singleton.mp hi
    rfl
  | newLabel => cases hi
  | bind l => cases hi
  | jump l =>
    cases List.mem_singleton.mp hi
    cases hn
  | jumpIfFalse l =>
    cases List.mem_singleton.mp hi
    cases hn

end Rows

def SlotsBelow (limit : Nat) (code : Code) : Prop := ∀ i ∈ code, ∀ n, i.slot? = some n → n < limit

namespace SlotsBelow

variable {limit limit' : Nat} {code code' : Code} {g : Generator}

theorem nil : SlotsBelow limit [] := nofun

theorem cons {i : Instruction} (hi : ∀ n, i.slot? = some n → n < limit)
    (h : SlotsBelow limit code) : SlotsBelow limit (i :: code) :=
  List.forall_mem_cons.mpr ⟨hi, h⟩

theorem append (h : SlotsBelow limit code) (h' : SlotsBelow limit code') :
    SlotsBelow limit (code ++ code') :=
  List.forall_mem_append.mpr ⟨h, h'⟩

theorem mono (h : SlotsBelow limit code) (hle : limit ≤ limit') : SlotsBelow limit' code :=
  fun i hi n hn => Nat.lt_of_lt_of_le (h i hi n hn) hle

theorem of_mem (hg : g.Bounded) (hle : g.nextSlot ≤ limit)
    (h : ∀ i ∈ code, ∀ n, i.slot? = some n → n ∈ g.slots.meanings) : SlotsBelow limit code :=
  fun i hi n hn => Nat.lt_of_lt_of_le (hg n (h i hi n hn)) hle

theorem of_computes (hg : g.Bounded) (hle : g.nextSlot ≤ limit) (h : Computes g.slots code) :
    SlotsBelow limit code :=
  of_mem hg hle fun i hi _ hn => (h i hi).slot_mem hn

end SlotsBelow

/-- From one state to the other, directives take `count` slots; they use these and those in scope
only. -/
structure Takes (g : Generator) (count : Nat) (ds : List Directive) (g' : Generator) : Prop where
  next : g'.nextSlot = g.nextSlot + count
  below : g.Bounded → SlotsBelow g'.nextSlot (emitted ds)

variable {d : Declarations}

theorem Stmt.generate_bounded {s : Stmt} {g g' : Generator} {ds : List Directive}
    (hok : s.generate d g = .ok (ds, g')) (hg : g.Bounded) : g'.Bounded := by
  rcases Stmt.generate_slots hok with ⟨b, _, rfl⟩ | ⟨_, hslots⟩
  · exact hg.declare b.name.text
  · exact hg.of_slots_eq hslots (s.generate_advances hok).slot_le

theorem Takes.emits {g : Generator} {code : Code}
    (h : g.Bounded → SlotsBelow g.nextSlot code) : Takes g 0 (emits code) g := by
  refine ⟨rfl, ?_⟩
  rw [emitted_emits]
  exact h

mutual

theorem Stmt.takes {g g' : Generator} {ds : List Directive} (s : Stmt)
    (hok : s.generate d g = .ok (ds, g')) : Takes g s.locals ds g' := by
  match s with
  | .declare b =>
    obtain ⟨init, hinit, hok⟩ := bind_eq_ok.mp hok
    cases hok
    refine ⟨rfl, fun hg => ?_⟩
    rw [emitted_emits]
    refine (SlotsBelow.of_computes hg (Nat.le_succ _) (Expr.code_computes hinit)).append
      (.cons ?_ .nil)
    rintro _ ⟨⟩
    exact Nat.lt_succ_self _
  | .assign target value =>
    obtain ⟨code, hcode, hok⟩ := bind_eq_ok.mp hok
    obtain ⟨store, hstore, hok⟩ := bind_eq_ok.mp hok
    cases hok
    refine .emits fun hg => ?_
    exact (SlotsBelow.of_computes hg (Nat.le_refl _) (Expr.code_computes hcode)).append
      (.of_mem hg (Nat.le_refl _) fun i hi => (storeCode_slots hstore i hi).2)
  | .cond branches =>
    obtain ⟨⟨body, g₁⟩, hbody, hok⟩ := bind_eq_ok.mp hok
    cases hok
    obtain ⟨hnext, hbelow⟩ := branches.takes hbody
    refine ⟨hnext, fun hg => ?_⟩
    simpa [Directive.emitted?] using hbelow hg
  | .loop test body =>
    obtain ⟨testCode, htest, hok⟩ := bind_eq_ok.mp hok
    obtain ⟨⟨inner, g₁⟩, hinner, hok⟩ := bind_eq_ok.mp hok
    cases hok
    obtain ⟨hnext, hbelow⟩ := generateStmts_takes body hinner
    refine ⟨hnext, fun hg => ?_⟩
    have hle : g.nextSlot ≤ g₁.nextSlot := (generateStmts_advances body hinner).slot_le
    have htested := SlotsBelow.of_computes hg hle (Expr.code_computes htest)
    simpa [Directive.emitted?, Generator.pop] using htested.append (hbelow hg)
  | .count var start direction stop body =>
    obtain ⟨startCode, hstart, hok⟩ := bind_eq_ok.mp hok
    obtain ⟨stopCode, hstop, hok⟩ := bind_eq_ok.mp hok
    obtain ⟨⟨inner, g₁⟩, hinner, hok⟩ := bind_eq_ok.mp hok
    cases hok
    obtain ⟨hnext, hbelow⟩ := generateStmts_takes body hinner
    refine ⟨hnext.trans (Nat.add_right_comm _ _ _), fun hg => ?_⟩
    have hlt : g.nextSlot < g₁.nextSlot := (generateStmts_advances body hinner).slot_le
    have hvar : ∀ n, some g.nextSlot = some n → n < g₁.nextSlot := by
      rintro _ ⟨⟩
      exact hlt
    have hle := Nat.le_of_lt hlt
    have hstarted := SlotsBelow.of_computes hg hle (Expr.code_computes hstart)
    have hstopped := SlotsBelow.of_computes hg hle (Expr.code_computes hstop)
    have hbody := hbelow (Bounded.declare (g := (g.takeLabels 2).push) hg var.text)
    have henter := hstarted.append (.cons (i := .store g.nextSlot) hvar .nil)
    have hcheck := (hstopped.cons (i := .load g.nextSlot) hvar).append
      (.cons (i := .binary direction.test) nofun .nil)
    have hstep : SlotsBelow g₁.nextSlot
        [.load g.nextSlot, .push (.int 1), .binary direction.step, .store g.nextSlot] :=
      .cons hvar (.cons nofun (.cons nofun (.cons hvar .nil)))
    simpa [Directive.emitted?, Generator.pop] using
      ((henter.append hcheck).append hbody).append hstep
  | .ret none _ =>
    cases hok
    exact .emits fun _ => .cons nofun (.cons nofun .nil)
  | .ret (some value) _ =>
    obtain ⟨code, hcode, hok⟩ := bind_eq_ok.mp hok
    cases hok
    refine .emits fun hg => ?_
    exact (SlotsBelow.of_computes hg (Nat.le_refl _) (Expr.code_computes hcode)).append
      (.cons nofun .nil)
  | .delete name =>
    obtain ⟨slot, hslot, hok⟩ := bind_eq_ok.mp hok
    cases hok
    refine .emits fun hg => .cons ?_ (.cons nofun .nil)
    rintro _ ⟨⟩
    exact hg slot (slotOf_mem hslot)
  | .call fn args =>
    obtain ⟨code, hcode, hok⟩ := bind_eq_ok.mp hok
    cases hok
    refine .emits fun hg => ?_
    exact (SlotsBelow.of_computes hg (Nat.le_refl _) (callCode_computes hcode)).append
      (.cons nofun .nil)

theorem generateStmts_takes {g g' : Generator} {ds : List Directive} (ss : List Stmt)
    (hok : generateStmts d g ss = .ok (ds, g')) : Takes g (stmtLocals ss) ds g' := by
  match ss with
  | [] =>
    cases hok
    exact ⟨rfl, fun _ => .nil⟩
  | s :: rest =>
    obtain ⟨first, g₁, hfirst, h⟩ := generateStmts_cons hok
    obtain ⟨hnext, hbelow⟩ := s.takes hfirst
    rcases h with ⟨hret, rfl, rfl⟩ | ⟨hret, more, hmore, rfl⟩
    · have hzero : s.locals = 0 := by
        cases s with
        | ret => rfl
        | _ => cases hret
      rw [hzero] at hnext
      simp only [stmtLocals, hret, if_true]
      exact ⟨hnext, hbelow⟩
    · obtain ⟨hnext', hbelow'⟩ := generateStmts_takes rest hmore
      simp only [stmtLocals, hret, Bool.false_eq_true, if_false]
      refine ⟨by omega, fun hg => ?_⟩
      have hle := (generateStmts_advances rest hmore).slot_le
      rw [emitted_append]
      exact ((hbelow hg).mono hle).append (hbelow' (Stmt.generate_bounded hfirst hg))

theorem Branches.takes {g g' : Generator} {ds : List Directive} {done : Nat} (bs : Branches)
    (hok : bs.generate d done g = .ok (ds, g')) : Takes g bs.locals ds g' := by
  match bs with
  | .done =>
    cases hok
    exact ⟨rfl, fun _ => .nil⟩
  | .otherwise body =>
    obtain ⟨⟨inner, g₁⟩, hinner, hok⟩ := bind_eq_ok.mp hok
    cases hok
    obtain ⟨hnext, hbelow⟩ := generateStmts_takes body hinner
    exact ⟨hnext, hbelow⟩
  | .branch test body rest =>
    obtain ⟨testCode, htest, hok⟩ := bind_eq_ok.mp hok
    obtain ⟨⟨inner, g₁⟩, hinner, hok⟩ := bind_eq_ok.mp hok
    obtain ⟨⟨more, g₂⟩, hmore, hok⟩ := bind_eq_ok.mp hok
    cases hok
    have hadvance := generateStmts_advances body hinner
    have hle : g₁.nextSlot ≤ g'.nextSlot := (rest.generate_advances hmore).1.slot_le
    have hle' : g.nextSlot ≤ g₁.nextSlot := hadvance.slot_le
    obtain ⟨hnext, hbelow⟩ := generateStmts_takes body hinner
    obtain ⟨hnext', hbelow'⟩ := rest.takes hmore
    simp only [Generator.takeLabels, Generator.push, Generator.pop] at hnext hnext'
    simp only [Branches.locals]
    refine ⟨by omega, fun hg => ?_⟩
    have htested := SlotsBelow.of_computes hg (Nat.le_trans hle' hle) (Expr.code_computes htest)
    have hbody := (hbelow hg).mono hle
    have hrest := hbelow' (hg.of_slots_eq (hadvance.pop_slots rfl) hle')
    -- the jump behind the body is no instruction that is emitted as it stands
    cases rest <;> simpa [Directive.emitted?] using (htested.append hbody).append hrest

end

end RecordLang

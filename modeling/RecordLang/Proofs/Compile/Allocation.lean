import Mathlib.Data.List.Nodup
import Mathlib.Data.Option.Basic
import RecordLang.Proofs.Compile.Programs

/-! # Slots in turn

Code generation opens a scope for each body and closes it behind the body. The variables of a
function get the slots 0, 1, 2, and so on, in the order in which code comes to their declarations.
-/

namespace RecordLang

open Generator

/-! ## Scopes behind a statement -/

structure Stmt.Keeps (s : Stmt) (g g' : Generator) : Prop where
  depth : g'.slots.depth = g.slots.depth
  others : ∀ x, (∀ b, s = .declare b → x ≠ b.name.text) → g'.slots.find? x = g.slots.find? x
  declared : ∀ b, s = .declare b → g'.slots.declaredHere b.name.text = true ∧
    g'.slots.find? b.name.text = some g.nextSlot ∧ g'.slots.pop = g.slots.pop
  slot_le : g.nextSlot ≤ g'.nextSlot
  bounded : g.Bounded → g'.Bounded

variable {d : Declarations} {g g' : Generator} {ds : List Directive}

theorem Stmt.generate_keeps {s : Stmt} (hg : g.slots ≠ []) (hok : s.generate d g = .ok (ds, g')) :
    s.Keeps g g' := by
  have hle := (s.generate_advances hok).slot_le
  rcases Stmt.generate_slots hok with ⟨b, rfl, rfl⟩ | ⟨hne, hslots⟩
  · refine ⟨Scopes.depth_declare, ?_, ?_, hle, fun h => h.declare b.name.text⟩
    · intro x hx
      exact Scopes.find?_declare_of_ne (hx b rfl)
    · rintro _ ⟨⟩
      exact ⟨Scopes.declaredHere_declare hg, Scopes.find?_declare_self hg, Scopes.pop_declare⟩
  · refine ⟨by rw [hslots], ?_, ?_, hle, fun h => h.of_slots_eq hslots hle⟩
    · intro x _
      rw [hslots]
    · intro b hb
      exact absurd hb (hne b)

theorem Stmt.Keeps.ne_nil {s : Stmt} (h : s.Keeps g g') (hg : g.slots ≠ []) : g'.slots ≠ [] := by
  rw [← List.length_pos_iff] at hg ⊢
  exact Nat.lt_of_lt_of_eq hg h.depth.symm

/-! ## The statements of a function in the order of their code -/

def behind {β : Type} (x : Generated) (f : Generator → List β) : List β :=
  match x with
  | .ok (_, g) => f g
  | .error _ => []

theorem mem_behind {β : Type} {x : Generated} {f : Generator → List β} {b : β}
    (h : b ∈ behind x f) : ∃ ds g, x = .ok (ds, g) ∧ b ∈ f g := by
  cases x with
  | error e => cases h
  | ok result => exact ⟨result.1, result.2, rfl, h⟩

mutual

/-- The statements whose code is generated with that of `s`, in order, each with the state before
it. Where there is no code, the row ends. -/
def Stmt.visits (d : Declarations) (g : Generator) : Stmt → List (Generator × Stmt)
  | .cond branches => (g, .cond branches) :: branches.visits d (g.takeLabels 1)
  | .loop test body =>
    (g, .loop test body) ::
      if (test.code d g.slots).isOk then stmtVisits d (g.takeLabels 2).push body else []
  | .count var start direction stop body =>
    (g, .count var start direction stop body) ::
      if (start.code d g.slots).isOk && (stop.code d g.slots).isOk then
        stmtVisits d (g.countScope var) body
      else []
  | s => [(g, s)]

def stmtVisits (d : Declarations) (g : Generator) : List Stmt → List (Generator × Stmt)
  | [] => []
  | s :: rest =>
    s.visits d g ++
      behind (s.generate d g) fun g' => if s.isReturn then [] else stmtVisits d g' rest

def Branches.visits (d : Declarations) (g : Generator) : Branches → List (Generator × Stmt)
  | .done => []
  | .otherwise body => stmtVisits d g.push body
  | .branch test body rest =>
    if (test.code d g.slots).isOk then
      stmtVisits d (g.takeLabels 1).push body ++
        behind (generateStmts d (g.takeLabels 1).push body) fun g' => rest.visits d g'.pop
    else []

end

/-- The statements of a function in the order of their code, each with the state before it. -/
def FunDecl.visits (d : Declarations) (f : FunDecl) : List (Generator × Stmt) :=
  stmtVisits d f.generator f.body

/-- The statement has code in the state before it, and that code stands in `code`. -/
def StandsIn (d : Declarations) (code : List Directive) (v : Generator × Stmt) : Prop :=
  ∃ ds g', v.2.generate d v.1 = .ok (ds, g') ∧ ds <:+: code

theorem infix_of_body (before after inner : List Directive) (test : Directive) :
    inner <:+: before ++ test :: inner ++ after :=
  ⟨before ++ [test], after, by simp⟩

theorem StandsIn.mono {code code' : List Directive} {v : Generator × Stmt}
    (h : StandsIn d code v) (hcode : code <:+: code') : StandsIn d code' v := by
  obtain ⟨ds, g', hok, hds⟩ := h
  exact ⟨ds, g', hok, hds.trans hcode⟩

mutual

theorem Stmt.visits_standIn (s : Stmt) {g g' : Generator} {ds : List Directive}
    (hok : s.generate d g = .ok (ds, g')) : ∀ v ∈ s.visits d g, StandsIn d ds v := by
  have hself : StandsIn d ds (g, s) := ⟨ds, g', hok, List.infix_rfl⟩
  match s with
  | .cond branches =>
    rintro v (_ | ⟨_, hv⟩)
    · exact hself
    · obtain ⟨⟨body, g₁⟩, hbody, hok⟩ := bind_eq_ok.mp hok
      cases hok
      exact (branches.visits_standIn hbody v hv).mono ⟨[.newLabel], [.bind g.nextLabel], rfl⟩
  | .loop test body =>
    simp only [Stmt.visits]
    rintro v (_ | ⟨_, hv⟩)
    · exact hself
    · obtain ⟨testCode, htest, hok⟩ := bind_eq_ok.mp hok
      obtain ⟨⟨inner, g₁⟩, hbody, hok⟩ := bind_eq_ok.mp hok
      cases hok
      rw [htest] at hv
      exact (stmtVisits_standIn body hbody v hv).mono (infix_of_body _ _ inner _)
  | .count var start direction stop body =>
    simp only [Stmt.visits]
    rintro v (_ | ⟨_, hv⟩)
    · exact hself
    · obtain ⟨startCode, hstart, hok⟩ := bind_eq_ok.mp hok
      obtain ⟨stopCode, hstop, hok⟩ := bind_eq_ok.mp hok
      obtain ⟨⟨inner, g₁⟩, hbody, hok⟩ := bind_eq_ok.mp hok
      cases hok
      rw [hstart, hstop] at hv
      exact (stmtVisits_standIn body hbody v hv).mono
        ((infix_of_body _ _ inner _).trans (List.prefix_append _ _).isInfix)
  | .declare _ | .assign _ _ | .ret _ _ | .delete _ | .call _ _ =>
    rintro v (_ | ⟨_, ⟨⟩⟩)
    exact hself

theorem stmtVisits_standIn (ss : List Stmt) {g g' : Generator} {ds : List Directive}
    (hok : generateStmts d g ss = .ok (ds, g')) : ∀ v ∈ stmtVisits d g ss, StandsIn d ds v := by
  match ss with
  | [] => rintro v ⟨⟩
  | s :: rest =>
    obtain ⟨first, g₁, hfirst, hcases⟩ := generateStmts_cons hok
    intro v hv
    rw [stmtVisits, hfirst, behind] at hv
    rcases hcases with ⟨hret, rfl, rfl⟩ | ⟨hret, more, hmore, rfl⟩
    · rw [hret, if_pos rfl, List.append_nil] at hv
      exact s.visits_standIn hfirst v hv
    · rw [hret, if_neg Bool.false_ne_true] at hv
      rcases List.mem_append.mp hv with hv | hv
      · exact (s.visits_standIn hfirst v hv).mono (List.prefix_append first more).isInfix
      · exact (stmtVisits_standIn rest hmore v hv).mono (List.suffix_append first more).isInfix

theorem Branches.visits_standIn (bs : Branches) {g g' : Generator} {ds : List Directive}
    {done : Nat} (hok : bs.generate d done g = .ok (ds, g')) :
    ∀ v ∈ bs.visits d g, StandsIn d ds v := by
  match bs with
  | .done => rintro v ⟨⟩
  | .otherwise body =>
    obtain ⟨⟨inner, g₁⟩, hbody, hok⟩ := bind_eq_ok.mp hok
    cases hok
    exact stmtVisits_standIn body hbody
  | .branch test body rest =>
    obtain ⟨testCode, htest, hok⟩ := bind_eq_ok.mp hok
    obtain ⟨⟨inner, g₁⟩, hbody, hok⟩ := bind_eq_ok.mp hok
    obtain ⟨⟨more, g₂⟩, hmore, hok⟩ := bind_eq_ok.mp hok
    cases hok
    intro v hv
    rw [Branches.visits, htest, hbody, behind] at hv
    rcases List.mem_append.mp hv with hv | hv
    · exact (stmtVisits_standIn body hbody v hv).mono
        ((infix_of_body _ _ inner _).trans (List.prefix_append _ _).isInfix)
    · exact (rest.visits_standIn hmore v hv).mono
        ((List.suffix_cons _ more).trans (List.suffix_append _ _)).isInfix

end

structure Generator.Ready (g : Generator) : Prop where
  ne_nil : g.slots ≠ []
  sound : g.Sound

namespace Generator.Ready

theorem takeLabels (h : g.Ready) (count : Nat) : (g.takeLabels count).Ready :=
  ⟨h.ne_nil, h.sound.distinct, h.sound.below⟩

theorem push (h : g.Ready) : g.push.Ready :=
  ⟨List.cons_ne_nil _ _, h.sound.distinct, h.sound.below⟩

theorem declare (h : g.Ready) (name : String) : (g.declare name).Ready :=
  ⟨Scopes.declare_ne_nil _ _ _ h.ne_nil, h.sound.declare name⟩

theorem countScope (h : g.Ready) (var : Ident) : (g.countScope var).Ready :=
  (h.takeLabels 2).push.declare var.text

theorem of_slots_eq (h : g.Ready) (hslots : g'.slots = g.slots)
    (hslot : g.nextSlot ≤ g'.nextSlot) : g'.Ready :=
  ⟨hslots ▸ h.ne_nil, h.sound.of_slots_eq hslots hslot⟩

theorem generate (h : g.Ready) {s : Stmt} (hok : s.generate d g = .ok (ds, g')) : g'.Ready :=
  ⟨(Stmt.generate_keeps h.ne_nil hok).ne_nil h.ne_nil, (s.generate_advances hok).sound h.sound⟩

end Generator.Ready

mutual

theorem Stmt.visits_ready (s : Stmt) {g : Generator} (hg : g.Ready) :
    ∀ v ∈ s.visits d g, v.1.Ready := by
  match s with
  | .cond branches =>
    rintro v (_ | ⟨_, hv⟩)
    · exact hg
    · exact branches.visits_ready (hg.takeLabels 1) v hv
  | .loop test body =>
    simp only [Stmt.visits]
    rintro v (_ | ⟨_, hv⟩)
    · exact hg
    · split at hv
      next => exact stmtVisits_ready body (hg.takeLabels 2).push v hv
      next => cases hv
  | .count var start direction stop body =>
    simp only [Stmt.visits]
    rintro v (_ | ⟨_, hv⟩)
    · exact hg
    · split at hv
      next => exact stmtVisits_ready body (hg.countScope var) v hv
      next => cases hv
  | .declare _ | .assign _ _ | .ret _ _ | .delete _ | .call _ _ =>
    rintro v (_ | ⟨_, ⟨⟩⟩)
    exact hg

theorem stmtVisits_ready (ss : List Stmt) {g : Generator} (hg : g.Ready) :
    ∀ v ∈ stmtVisits d g ss, v.1.Ready := by
  match ss with
  | [] => rintro v ⟨⟩
  | s :: rest =>
    intro v hv
    rcases List.mem_append.mp hv with hv | hv
    · exact s.visits_ready hg v hv
    · obtain ⟨first, g', hok, hv⟩ := mem_behind hv
      split at hv
      next => cases hv
      next => exact stmtVisits_ready rest (hg.generate hok) v hv

theorem Branches.visits_ready (bs : Branches) {g : Generator} (hg : g.Ready) :
    ∀ v ∈ bs.visits d g, v.1.Ready := by
  match bs with
  | .done => rintro v ⟨⟩
  | .otherwise body => exact stmtVisits_ready body hg.push
  | .branch test body rest =>
    intro v hv
    unfold Branches.visits at hv
    split at hv
    next =>
      rcases List.mem_append.mp hv with hv | hv
      · exact stmtVisits_ready body (hg.takeLabels 1).push v hv
      · obtain ⟨inner, g', hok, hv⟩ := mem_behind hv
        have h := generateStmts_advances body hok
        have hg' : g'.pop.Ready := hg.of_slots_eq (h.pop_slots rfl) h.slot_le
        exact rest.visits_ready hg' v hv
    next => cases hv

end

theorem FunDecl.generator_ready (f : FunDecl) (c : Catalog) : f.generator.Ready :=
  ⟨(f.generator_mirrors c).ne_nil.2, f.generator_sound⟩

/-! ## Slots of declarations -/

mutual

def Stmt.declared : Stmt → List Ident
  | .declare b => [b.name]
  | .cond branches => branches.declared
  | .loop _ body => stmtDeclared body
  | .count var _ _ _ body => var :: stmtDeclared body
  | _ => []

/-- What stands behind a `return` in a row of statements is dead code. -/
def stmtDeclared : List Stmt → List Ident
  | [] => []
  | s :: rest => s.declared ++ if s.isReturn then [] else stmtDeclared rest

def Branches.declared : Branches → List Ident
  | .done => []
  | .otherwise body => stmtDeclared body
  | .branch _ body rest => stmtDeclared body ++ rest.declared

end

def FunDecl.declared (f : FunDecl) : List Ident := f.params.map Param.name ++ stmtDeclared f.body

/-- The variable that a statement itself declares, with the slot that its name stands for right
behind the declaration. -/
def Stmt.receipt? (d : Declarations) (g : Generator) : Stmt → Option (Ident × Option Nat)
  | .declare b =>
    match (Stmt.declare b).generate d g with
    | .ok (_, g') => some (b.name, g'.slots.find? b.name.text)
    | .error _ => none
  | .count var start _ stop _ =>
    if (start.code d g.slots).isOk && (stop.code d g.slots).isOk then
      some (var, (g.countScope var).slots.find? var.text)
    else none
  | _ => none

def rowReceipts (d : Declarations) (visits : List (Generator × Stmt)) : List (Ident × Option Nat) :=
  visits.filterMap fun v => v.2.receipt? d v.1

def paramReceipts (g : Generator) : List Param → List (Ident × Option Nat)
  | [] => []
  | p :: params =>
    let g' := g.declare p.name.text
    (p.name, g'.slots.find? p.name.text) :: paramReceipts g' params

/-- The variables of a function in the order in which code comes to their declarations, each with
the slot that its name stands for right behind the declaration. -/
def FunDecl.receipts (d : Declarations) (f : FunDecl) : List (Ident × Option Nat) :=
  paramReceipts ⟨Scopes.push [], 0, 0⟩ f.params ++ rowReceipts d (f.visits d)

def inTurn (first : Nat) (names : List Ident) : List (Ident × Option Nat) :=
  (names.zipIdx first).map (Prod.map id some)

theorem inTurn_cons (first : Nat) (x : Ident) (names : List Ident) :
    inTurn first (x :: names) = (x, some first) :: inTurn (first + 1) names := rfl

theorem inTurn_append (first : Nat) (names names' : List Ident) :
    inTurn first (names ++ names') =
      inTurn first names ++ inTurn (first + names.length) names' := by
  simp [inTurn, List.zipIdx_append]

theorem nodup_inTurn (first : Nat) (names : List Ident) :
    ((inTurn first names).map Prod.snd).Nodup := by
  have h : (inTurn first names).map Prod.snd = (List.range' first names.length).map some := by
    rw [← List.zipIdx_map_snd, inTurn, List.map_map, List.map_map]
    rfl
  rw [h]
  exact (List.nodup_range').map (Option.some_injective _)

/-- The declarations of `names` have got their slots in turn, from `first` on, as far as there is
code; if there is all of it, they all have. -/
structure Allots (first : Nat) (names : List Ident) (row : List (Ident × Option Nat))
    (x : Generated) : Prop where
  starts : row <+: inTurn first names
  ends : ∀ ds g', x = .ok (ds, g') → row = inTurn first names ∧ g'.nextSlot = first + names.length

namespace Allots

variable {first : Nat} {names names' : List Ident} {row : List (Ident × Option Nat)}
  {x y : Generated}

theorem nil (hx : ∀ ds g', x = .ok (ds, g') → g'.nextSlot = first) : Allots first [] [] x :=
  ⟨List.nil_prefix, fun ds g' hok => ⟨rfl, hx ds g' hok⟩⟩

theorem of_error {e : CompileError} (h : row <+: inTurn first names) :
    Allots first names row (.error e) :=
  ⟨h, fun _ _ hok => nomatch hok⟩

/-- Where the code of an expression comes first, nothing is declared without it. -/
theorem after {α : Type} {code : Except CompileError α} {f : α → Generated}
    (h : ∀ a, code = .ok a → Allots first names row (f a)) :
    Allots first names (if code.isOk then row else []) (code >>= f) := by
  cases code with
  | error e => exact .of_error List.nil_prefix
  | ok a => exact h a rfl

theorem cons (var : Ident) (h : Allots (first + 1) names row x) :
    Allots first (var :: names) ((var, some first) :: row) x := by
  refine ⟨(List.prefix_cons_inj _).mpr h.starts, ?_⟩
  intro ds g' hok
  obtain ⟨hrow, hslot⟩ := h.ends ds g' hok
  constructor
  · rw [hrow, inTurn_cons]
  · rw [hslot, List.length_cons]
    omega

theorem map {f : List Directive × Generator → List Directive × Generator}
    (h : Allots first names row y) (hf : ∀ result, (f result).2.nextSlot = result.2.nextSlot) :
    Allots first names row (y >>= fun result => .ok (f result)) := by
  refine ⟨h.starts, ?_⟩
  intro ds g' hok
  obtain ⟨⟨ds₁, g₁⟩, hy, hok⟩ := bind_eq_ok.mp hok
  obtain ⟨hrow, hslot⟩ := h.ends ds₁ g₁ hy
  refine ⟨hrow, ?_⟩
  rw [← hslot, ← hf (ds₁, g₁), Except.ok.inj hok]

theorem andThen {k : Generator → List (Ident × Option Nat)}
    {f : List Directive × Generator → Generated} (h : Allots first names row y)
    (hf : ∀ ds g₁, y = .ok (ds, g₁) → Allots g₁.nextSlot names' (k g₁) (f (ds, g₁))) :
    Allots first (names ++ names') (row ++ behind y k) (y >>= f) := by
  cases y with
  | error e =>
    refine .of_error ?_
    rw [behind, List.append_nil, inTurn_append]
    exact h.starts.trans (List.prefix_append _ _)
  | ok result =>
    obtain ⟨ds₁, g₁⟩ := result
    obtain ⟨hrow, hslot⟩ := h.ends ds₁ g₁ rfl
    have h' := hf ds₁ g₁ rfl
    rw [hslot] at h'
    constructor
    · rw [hrow, inTurn_append]
      exact (List.prefix_append_right_inj _).mpr h'.starts
    · intro ds g' hok
      obtain ⟨hrow', hslot'⟩ := h'.ends ds g' hok
      constructor
      · rw [behind, inTurn_append, ← hrow, ← hrow']
      · rw [hslot', List.length_append, Nat.add_assoc]

end Allots

theorem rowReceipts_append (visits visits' : List (Generator × Stmt)) :
    rowReceipts d (visits ++ visits') = rowReceipts d visits ++ rowReceipts d visits' :=
  List.filterMap_append

mutual

theorem Stmt.visits_allot (s : Stmt) {g : Generator} (hg : g.slots ≠ []) :
    Allots g.nextSlot s.declared (rowReceipts d (s.visits d g)) (s.generate d g) := by
  match s with
  | .declare b =>
    have hrow : rowReceipts d ((Stmt.declare b).visits d g) =
        if (b.init.code d g.slots).isOk then [(b.name, some g.nextSlot)] else [] := by
      have hslot : (g.declare b.name.text).slots.find? b.name.text = some g.nextSlot :=
        Scopes.find?_declare_self hg
      rw [← hslot]
      simp only [rowReceipts, Stmt.visits, List.filterMap_cons, Stmt.receipt?, Stmt.generate]
      cases b.init.code d g.slots <;> rfl
    rw [hrow]
    refine .after fun init _ => .cons b.name (.nil ?_)
    rintro _ _ ⟨⟩
    rfl
  | .cond branches =>
    exact (branches.visits_allot (g := g.takeLabels 1) g.nextLabel hg).map fun _ => rfl
  | .loop test body =>
    have hrow : rowReceipts d ((Stmt.loop test body).visits d g) =
        if (test.code d g.slots).isOk then rowReceipts d (stmtVisits d (g.takeLabels 2).push body)
        else [] := by
      simp only [rowReceipts, Stmt.visits, List.filterMap_cons, Stmt.receipt?]
      cases test.code d g.slots <;> rfl
    rw [hrow]
    refine .after fun testCode _ => ?_
    have h := stmtVisits_allot (g := (g.takeLabels 2).push) body (List.cons_ne_nil _ _)
    exact h.map fun _ => rfl
  | .count var start direction stop body =>
    have hrow : rowReceipts d ((Stmt.count var start direction stop body).visits d g) =
        if (start.code d g.slots).isOk then
          if (stop.code d g.slots).isOk then
            (var, some g.nextSlot) :: rowReceipts d (stmtVisits d (g.countScope var) body)
          else []
        else [] := by
      have hslot : (g.countScope var).slots.find? var.text = some g.nextSlot :=
        Scopes.find?_declare_self (List.cons_ne_nil _ _)
      rw [← hslot]
      simp only [rowReceipts, Stmt.visits, List.filterMap_cons, Stmt.receipt?]
      cases start.code d g.slots <;> cases stop.code d g.slots <;> rfl
    rw [hrow]
    refine .after fun startCode _ => .after fun stopCode _ => .cons var ?_
    -- the variable has its slot before anything in the body has one
    have h := stmtVisits_allot (g := g.countScope var) body (List.cons_ne_nil _ _)
    exact h.map fun _ => rfl
  | .assign _ _ | .ret _ _ | .delete _ | .call _ _ =>
    refine .nil ?_
    intro ds g' hok
    cases Stmt.generate_isPlain rfl hok
    rfl

theorem stmtVisits_allot (ss : List Stmt) {g : Generator} (hg : g.slots ≠ []) :
    Allots g.nextSlot (stmtDeclared ss) (rowReceipts d (stmtVisits d g ss))
      (generateStmts d g ss) := by
  match ss with
  | [] =>
    refine .nil ?_
    rintro _ _ ⟨⟩
    rfl
  | s :: rest =>
    have hrow : rowReceipts d (stmtVisits d g (s :: rest)) =
        rowReceipts d (s.visits d g) ++ behind (s.generate d g) fun g₁ =>
          if s.isReturn then [] else rowReceipts d (stmtVisits d g₁ rest) := by
      rw [stmtVisits, rowReceipts_append]
      cases s.generate d g <;> cases s.isReturn <;> rfl
    rw [hrow]
    refine (s.visits_allot hg).andThen ?_
    intro first g₁ hs
    cases s.isReturn with
    | true =>
      refine .nil ?_
      rintro _ _ ⟨⟩
      rfl
    | false =>
      have hg₁ := (Stmt.generate_keeps hg hs).ne_nil hg
      exact (stmtVisits_allot rest hg₁).map fun _ => rfl

theorem Branches.visits_allot (bs : Branches) {g : Generator} (done : Nat) (hg : g.slots ≠ []) :
    Allots g.nextSlot bs.declared (rowReceipts d (bs.visits d g)) (bs.generate d done g) := by
  match bs with
  | .done =>
    refine .nil ?_
    rintro _ _ ⟨⟩
    rfl
  | .otherwise body =>
    exact (stmtVisits_allot (g := g.push) body (List.cons_ne_nil _ _)).map fun _ => rfl
  | .branch test body rest =>
    have hrow : rowReceipts d ((Branches.branch test body rest).visits d g) =
        if (test.code d g.slots).isOk then
          rowReceipts d (stmtVisits d (g.takeLabels 1).push body) ++
            behind (generateStmts d (g.takeLabels 1).push body) fun g₁ =>
              rowReceipts d (rest.visits d g₁.pop)
        else [] := by
      rw [Branches.visits]
      cases test.code d g.slots with
      | error e => rfl
      | ok testCode =>
        refine (rowReceipts_append _ _).trans ?_
        cases generateStmts d (g.takeLabels 1).push body <;> rfl
    rw [hrow]
    refine .after fun testCode _ => ?_
    refine (stmtVisits_allot (g := (g.takeLabels 1).push) body (List.cons_ne_nil _ _)).andThen ?_
    intro inner g₁ hbody
    -- closing the scope of the body gives back the scopes, but not the slots
    have hslots : g₁.pop.slots = g.slots := (generateStmts_advances body hbody).pop_slots rfl
    exact (rest.visits_allot (g := g₁.pop) done (hslots ▸ hg)).map fun _ => rfl

end

theorem paramReceipts_eq (params : List Param) {g : Generator} (hg : g.slots ≠ []) :
    paramReceipts g params = inTurn g.nextSlot (params.map Param.name) := by
  induction params generalizing g with
  | nil => rfl
  | cons p params ih =>
    have hslot : (g.declare p.name.text).slots.find? p.name.text = some g.nextSlot :=
      Scopes.find?_declare_self hg
    have hrest := ih (g := g.declare p.name.text) (Scopes.declare_ne_nil _ _ _ hg)
    rw [List.map_cons, inTurn_cons, paramReceipts, hslot, hrest]
    rfl

theorem FunDecl.receipts_allot (f : FunDecl) :
    Allots 0 f.declared (f.receipts d) (generateStmts d f.generator f.body) := by
  have hrow := paramReceipts_eq f.params (g := ⟨Scopes.push [], 0, 0⟩) (List.cons_ne_nil _ _)
  have hparams : Allots 0 (f.params.map Param.name) (paramReceipts ⟨Scopes.push [], 0, 0⟩ f.params)
      (.ok ([], f.generator)) := by
    refine ⟨hrow ▸ List.prefix_rfl, ?_⟩
    rintro _ _ ⟨⟩
    exact ⟨hrow, by simpa using f.generator_next.1⟩
  have hready := f.generator_ready d.catalog
  refine hparams.andThen (f := fun x => generateStmts d x.2 f.body)
    (k := fun g => rowReceipts d (stmtVisits d g f.body)) ?_
  rintro _ _ ⟨⟩
  exact stmtVisits_allot f.body hready.ne_nil

/-- Behind a statement the open scopes are those before it, and names stand for the same slots,
except for a variable that the statement itself declares in the innermost scope. The variables of
a function get the slots 0, 1, 2, and so on, as code comes to their declarations; if the function
has code, all of them do, and the code of each statement stands in it. -/
theorem scopes_are_kept_and_slots_go_in_turn (d : Declarations) :
    (∀ (s : Stmt) (g g' : Generator) (ds : List Directive), 0 < g.slots.depth →
      s.generate d g = .ok (ds, g') → s.Keeps g g') ∧
    ∀ f : FunDecl,
      (∀ v ∈ f.visits d, 0 < v.1.slots.depth ∧ v.1.Bounded ∧
        ∀ ds g', v.2.generate d v.1 = .ok (ds, g') → g'.Bounded) ∧
      f.receipts d <+: inTurn 0 f.declared ∧ ((f.receipts d).map Prod.snd).Nodup ∧
      ∀ r, f.compile d = .ok r → f.receipts d = inTurn 0 f.declared ∧
        ∃ body g, generateStmts d f.generator f.body = .ok (body, g) ∧
          ∀ v ∈ f.visits d, StandsIn d body v := by
  constructor
  · intro s g g' ds hg hok
    exact Stmt.generate_keeps (List.length_pos_iff.mp hg) hok
  · intro f
    have h := f.receipts_allot (d := d)
    refine ⟨?_, h.starts, ?_, ?_⟩
    · intro v hv
      have hready := stmtVisits_ready f.body (f.generator_ready d.catalog) v hv
      exact ⟨List.length_pos_iff.mpr hready.ne_nil, hready.sound.bounded,
        fun ds g' hok => (hready.generate hok).sound.bounded⟩
    · exact (nodup_inTurn 0 f.declared).sublist (h.starts.sublist.map Prod.snd)
    · intro r hr
      obtain ⟨_, _, body, g, _, hbody, _⟩ := FunDecl.compile_eq_ok hr
      exact ⟨(h.ends body g hbody).1, body, g, hbody, stmtVisits_standIn f.body hbody⟩

namespace Program

/-- The loop hides the parameter, its body hides `m`, and two branches have a `k` of their own; one
more stands behind a `return`. -/
def shadowing : FunDecl where
  ret := ⟨.void, default⟩
  name := name "f"
  params := [⟨⟨.int, default⟩, name "n"⟩]
  body :=
    [.declare ⟨name "m", none, pathExpr ["n"]⟩,
      .count (name "n") (pathExpr ["n"]) .upto (pathExpr ["m"])
        [.declare ⟨name "m", none, pathExpr ["n"]⟩],
      .cond (.branch (pathExpr ["n"]) [.declare ⟨name "k", none, intExpr 1⟩]
        (.otherwise [.declare ⟨name "k", none, intExpr 2⟩, .ret none default,
          .declare ⟨name "k", none, intExpr 3⟩])),
      .declare ⟨name "k", none, pathExpr ["m"]⟩]

theorem shadowing_gets_its_slots_in_turn :
    ∃ r, shadowing.compile ⟨.empty, []⟩ = .ok r ∧
      shadowing.receipts ⟨.empty, []⟩ =
        [(name "n", some 0), (name "m", some 1), (name "n", some 2), (name "m", some 3),
          (name "k", some 4), (name "k", some 5), (name "k", some 6)] := by
  obtain ⟨r, hr⟩ : ∃ r, shadowing.compile ⟨.empty, []⟩ = .ok r := ⟨_, rfl⟩
  obtain ⟨_, hfun⟩ := scopes_are_kept_and_slots_go_in_turn ⟨.empty, []⟩
  obtain ⟨_, _, _, hall⟩ := hfun shadowing
  exact ⟨r, hr, (hall r hr).1⟩

end Program

end RecordLang

import RecordLang.Compile.Program
import RecordLang.Proofs.Except
import RecordLang.Proofs.Scopes
import RecordLang.Typing.Program

/-! # Slots of variables

Code generation gives each variable a slot of its own and leaves the scopes as it found them, except
for the names that are declared in the innermost one. Its scopes mirror those of checking.
-/

namespace RecordLang

namespace Generator

def Bounded (g : Generator) : Prop := ∀ slot ∈ g.slots.meanings, slot < g.nextSlot

/-- No two variables share a slot, and all slots in use have been given out. -/
structure Sound (g : Generator) : Prop where
  distinct : g.slots.meanings.Nodup
  below : ∀ slot ∈ g.slots.meanings, slot < g.nextSlot

variable {g g₁ g₂ : Generator}

theorem Bounded.declare (h : g.Bounded) (name : String) : (g.declare name).Bounded := by
  intro slot hs
  rcases Scopes.mem_meanings_declare hs with rfl | hs
  · exact Nat.lt_succ_self _
  · exact Nat.lt_succ_of_lt (h slot hs)

theorem Bounded.of_slots_eq (h : g.Bounded) (hslots : g₁.slots = g.slots)
    (hslot : g.nextSlot ≤ g₁.nextSlot) : g₁.Bounded := by
  intro slot hs
  rw [hslots] at hs
  exact Nat.lt_of_lt_of_le (h slot hs) hslot

theorem Sound.bounded (h : g.Sound) : g.Bounded := h.below

theorem Sound.nextSlot_not_mem (h : g.Sound) : g.nextSlot ∉ g.slots.meanings := fun hmem =>
  Nat.lt_irrefl _ (h.below _ hmem)

theorem Sound.declare (h : g.Sound) (name : String) : (g.declare name).Sound :=
  ⟨Scopes.nodup_meanings_declare h.distinct h.nextSlot_not_mem, h.bounded.declare name⟩

/-- What code generation does to its state between the beginning and the end of statements that
stand in a row. -/
structure Advances (g g' : Generator) : Prop where
  tail : g'.slots.tail = g.slots.tail
  slot_le : g.nextSlot ≤ g'.nextSlot
  label_le : g.nextLabel ≤ g'.nextLabel
  sound : g.Sound → g'.Sound

theorem Advances.refl (g : Generator) : Advances g g :=
  ⟨rfl, Nat.le_refl _, Nat.le_refl _, id⟩

theorem Advances.trans (h : Advances g g₁) (h' : Advances g₁ g₂) : Advances g g₂ :=
  ⟨h'.tail.trans h.tail, Nat.le_trans h.slot_le h'.slot_le, Nat.le_trans h.label_le h'.label_le,
    h'.sound ∘ h.sound⟩

theorem Advances.declare (g : Generator) (name : String) : Advances g (g.declare name) := by
  refine ⟨?_, Nat.le_succ _, Nat.le_refl _, fun h => h.declare name⟩
  unfold Generator.declare
  cases g.slots <;> rfl

theorem Sound.of_slots_eq (h : g.Sound) (hslots : g₁.slots = g.slots)
    (hslot : g.nextSlot ≤ g₁.nextSlot) : g₁.Sound :=
  ⟨hslots ▸ h.distinct, h.bounded.of_slots_eq hslots hslot⟩

/-- Behind a block, whose code is generated in a scope of its own, the scopes are those before
it. -/
theorem Advances.pop_slots {inside : Generator} (h : Advances inside g₁)
    (htail : inside.slots.tail = g.slots) : g₁.pop.slots = g.slots :=
  h.tail.trans htail

theorem Advances.pop {inside : Generator} (h : Advances inside g₁)
    (htail : inside.slots.tail = g.slots) (hslot : g.nextSlot ≤ inside.nextSlot)
    (hlabel : g.nextLabel ≤ inside.nextLabel) : Advances g g₁.pop := by
  have hslots := h.pop_slots htail
  have hle : g.nextSlot ≤ g₁.nextSlot := Nat.le_trans hslot h.slot_le
  exact ⟨congrArg List.tail hslots, hle, Nat.le_trans hlabel h.label_le,
    fun hg => hg.of_slots_eq hslots hle⟩

def countScope (g : Generator) (var : Ident) : Generator :=
  (g.takeLabels 2).push.declare var.text

end Generator

open Generator

theorem slotOf_eq_ok {slots : Scopes Nat} {name : Ident} {slot : Nat}
    (h : slotOf slots name = .ok slot) :
    slots.find? name.text = some slot := by
  unfold slotOf at h
  split at h
  next hs => rw [hs, Except.ok.inj h]
  next => cases h

variable {d : Declarations}

/-- A row of statements is its first one, and the others unless that is a `return`. -/
theorem generateStmts_cons {g g' : Generator} {ds : List Directive} {s : Stmt} {rest : List Stmt}
    (hok : generateStmts d g (s :: rest) = .ok (ds, g')) :
    ∃ first g₁, s.generate d g = .ok (first, g₁) ∧
      ((s.isReturn = true ∧ ds = first ∧ g' = g₁) ∨
        (s.isReturn = false ∧ ∃ more, generateStmts d g₁ rest = .ok (more, g') ∧
          ds = first ++ more)) := by
  obtain ⟨⟨first, g₁⟩, hfirst, hok⟩ := bind_eq_ok.mp hok
  refine ⟨first, g₁, hfirst, ?_⟩
  cases hret : s.isReturn with
  | true =>
    simp only [hret, if_true] at hok
    cases hok
    exact .inl ⟨rfl, rfl, rfl⟩
  | false =>
    simp only [hret, Bool.false_eq_true, if_false] at hok
    obtain ⟨⟨more, g₂⟩, hmore, hok⟩ := bind_eq_ok.mp hok
    cases hok
    exact .inr ⟨rfl, more, hmore, rfl⟩

def Stmt.isPlain : Stmt → Bool
  | .declare _ | .cond _ | .loop _ _ | .count _ _ _ _ _ => false
  | .assign _ _ | .ret _ _ | .delete _ | .call _ _ => true

theorem Stmt.generate_isPlain {s : Stmt} {g g' : Generator} {ds : List Directive}
    (hs : s.isPlain = true) (hok : s.generate d g = .ok (ds, g')) : g' = g := by
  cases s with
  | assign target value =>
    obtain ⟨code, _, hok⟩ := bind_eq_ok.mp hok
    obtain ⟨store, _, hok⟩ := bind_eq_ok.mp hok
    cases hok
    rfl
  | ret value p =>
    cases value with
    | none =>
      cases hok
      rfl
    | some value =>
      obtain ⟨code, _, hok⟩ := bind_eq_ok.mp hok
      cases hok
      rfl
  | delete name =>
    obtain ⟨slot, _, hok⟩ := bind_eq_ok.mp hok
    cases hok
    rfl
  | call fn args =>
    obtain ⟨code, _, hok⟩ := bind_eq_ok.mp hok
    cases hok
    rfl
  | _ => cases hs

mutual

theorem Stmt.generate_advances {g g' : Generator} {ds : List Directive} (s : Stmt)
    (hok : s.generate d g = .ok (ds, g')) :
    Advances g g' := by
  match s with
  | .declare b =>
    obtain ⟨init, _, hok⟩ := bind_eq_ok.mp hok
    cases hok
    exact .declare g b.name.text
  | .cond branches =>
    obtain ⟨⟨body, g₁⟩, hbody, hok⟩ := bind_eq_ok.mp hok
    cases hok
    have h := (branches.generate_advances hbody).1
    exact ⟨h.tail, h.slot_le, Nat.le_of_succ_le h.label_le,
      fun hs => h.sound ⟨hs.distinct, hs.below⟩⟩
  | .loop test body =>
    obtain ⟨testCode, _, hok⟩ := bind_eq_ok.mp hok
    obtain ⟨⟨inner, g₁⟩, hbody, hok⟩ := bind_eq_ok.mp hok
    cases hok
    have h := generateStmts_advances body hbody
    exact h.pop rfl (Nat.le_refl _) (Nat.le_add_right _ 2)
  | .count var start direction stop body =>
    obtain ⟨startCode, _, hok⟩ := bind_eq_ok.mp hok
    obtain ⟨stopCode, _, hok⟩ := bind_eq_ok.mp hok
    obtain ⟨⟨inner, g₁⟩, hbody, hok⟩ := bind_eq_ok.mp hok
    cases hok
    have h := generateStmts_advances body hbody
    exact h.pop rfl (Nat.le_succ _) (Nat.le_add_right _ 2)
  | .assign _ _ | .ret _ _ | .delete _ | .call _ _ =>
    cases Stmt.generate_isPlain rfl hok
    exact .refl g

theorem generateStmts_advances {g g' : Generator} {ds : List Directive} (ss : List Stmt)
    (hok : generateStmts d g ss = .ok (ds, g')) : Advances g g' := by
  match ss with
  | [] =>
    cases hok
    exact .refl g
  | s :: rest =>
    obtain ⟨first, g₁, hfirst, h⟩ := generateStmts_cons hok
    have h₁ := s.generate_advances hfirst
    rcases h with ⟨_, rfl, rfl⟩ | ⟨_, more, hmore, rfl⟩
    · exact h₁
    · exact h₁.trans (generateStmts_advances rest hmore)

theorem Branches.generate_advances {g g' : Generator} {ds : List Directive} {done : Nat}
    (bs : Branches) (hok : bs.generate d done g = .ok (ds, g')) :
    Advances g g' ∧ g'.slots = g.slots := by
  match bs with
  | .done =>
    cases hok
    exact ⟨.refl g, rfl⟩
  | .otherwise body =>
    obtain ⟨⟨inner, g₁⟩, hbody, hok⟩ := bind_eq_ok.mp hok
    cases hok
    have h := generateStmts_advances body hbody
    exact ⟨h.pop rfl (Nat.le_refl _) (Nat.le_refl _), h.pop_slots rfl⟩
  | .branch test body rest =>
    obtain ⟨testCode, _, hok⟩ := bind_eq_ok.mp hok
    obtain ⟨⟨inner, g₁⟩, hbody, hok⟩ := bind_eq_ok.mp hok
    obtain ⟨⟨more, g₂⟩, hmore, hok⟩ := bind_eq_ok.mp hok
    cases hok
    have h := generateStmts_advances body hbody
    have hclose : Advances g g₁.pop := h.pop rfl (Nat.le_refl _) (Nat.le_succ _)
    obtain ⟨h', hslots⟩ := rest.generate_advances hmore
    exact ⟨hclose.trans h', hslots.trans (h.pop_slots rfl)⟩

end

/-- The scopes of checking and of code generation declare the same variables. -/
def Mirrors (c : Catalog) : Scopes Meaning → Scopes Nat → Prop :=
  Scopes.RelAbove c.globals fun meaning _ => ∃ ty, meaning = .variable ty

theorem Catalog.globals_find?_ne (c : Catalog) (x : String) (ty : Ty) :
    c.globals.find? x ≠ some (.variable ty) := by
  intro h
  have hmem := Scopes.mem_meanings_of_find? h
  simp [Catalog.globals, Table.meanings] at hmem

variable {c : Catalog} {ret : Ty} {Γ Γ' : Scopes Meaning} {slots : Scopes Nat} {x : String}

theorem Mirrors.find? (h : Mirrors c Γ slots) {ty : Ty} (hx : Γ.find? x = some (.variable ty)) :
    ∃ slot, slots.find? x = some slot := by
  obtain ⟨slot, hslot, _⟩ := Scopes.RelAbove.find? h hx (c.globals_find?_ne x ty)
  exact ⟨slot, hslot⟩

theorem checkStmts_cons {s : Stmt} {rest : List Stmt}
    (h : checkStmts c ret Γ (s :: rest) = .ok ()) :
    ∃ Γ₁, s.check c ret Γ = .ok Γ₁ ∧
      (s.isReturn = false → checkStmts c ret Γ₁ rest = .ok ()) := by
  obtain ⟨Γ₁, hs, h⟩ := bind_eq_ok.mp h
  refine ⟨Γ₁, hs, ?_⟩
  intro hret
  simpa [hret] using h

theorem Stmt.check_scopes {s : Stmt} (h : s.check c ret Γ = .ok Γ') :
    (∃ b ty, s = .declare b ∧ Γ.declaredHere b.name.text = false ∧ b.type c Γ = .ok ty ∧
      Γ' = Γ.declare b.name.text (.variable ty)) ∨ ((∀ b, s ≠ .declare b) ∧ Γ' = Γ) := by
  cases s with
  | declare b =>
    cases hd : Γ.declaredHere b.name.text with
    | true =>
      rw [Stmt.check, hd] at h
      cases h
    | false =>
      rw [Stmt.check, hd] at h
      obtain ⟨ty, hty, h⟩ := bind_eq_ok.mp h
      cases h
      exact .inl ⟨b, ty, rfl, hd, hty, rfl⟩
  | assign target value =>
    obtain ⟨expected, _, h⟩ := bind_eq_ok.mp h
    obtain ⟨found, _, h⟩ := bind_eq_ok.mp h
    split at h
    next =>
      cases h
      exact .inr ⟨nofun, rfl⟩
    next => cases h
  | count var start direction stop body =>
    obtain ⟨_, _, h⟩ := bind_eq_ok.mp h
    obtain ⟨_, _, h⟩ := bind_eq_ok.mp h
    obtain ⟨_, _, h⟩ := bind_eq_ok.mp h
    cases h
    exact .inr ⟨nofun, rfl⟩
  | loop test body =>
    obtain ⟨_, _, h⟩ := bind_eq_ok.mp h
    obtain ⟨_, _, h⟩ := bind_eq_ok.mp h
    cases h
    exact .inr ⟨nofun, rfl⟩
  | _ =>
    obtain ⟨_, _, h⟩ := bind_eq_ok.mp h
    cases h
    exact .inr ⟨nofun, rfl⟩

theorem Stmt.generate_slots {s : Stmt} {g g' : Generator} {ds : List Directive}
    (hok : s.generate d g = .ok (ds, g')) :
    (∃ b, s = .declare b ∧ g' = g.declare b.name.text) ∨
      ((∀ b, s ≠ .declare b) ∧ g'.slots = g.slots) := by
  cases s with
  | declare b =>
    obtain ⟨init, _, hok⟩ := bind_eq_ok.mp hok
    cases hok
    exact .inl ⟨b, rfl, rfl⟩
  | cond branches =>
    obtain ⟨⟨body, g₁⟩, hbody, hok⟩ := bind_eq_ok.mp hok
    cases hok
    exact .inr ⟨nofun, (branches.generate_advances hbody).2⟩
  | loop test body =>
    obtain ⟨testCode, _, hok⟩ := bind_eq_ok.mp hok
    obtain ⟨⟨inner, g₁⟩, hbody, hok⟩ := bind_eq_ok.mp hok
    cases hok
    exact .inr ⟨nofun, (generateStmts_advances body hbody).pop_slots rfl⟩
  | count var start direction stop body =>
    obtain ⟨startCode, _, hok⟩ := bind_eq_ok.mp hok
    obtain ⟨stopCode, _, hok⟩ := bind_eq_ok.mp hok
    obtain ⟨⟨inner, g₁⟩, hbody, hok⟩ := bind_eq_ok.mp hok
    cases hok
    exact .inr ⟨nofun, (generateStmts_advances body hbody).pop_slots rfl⟩
  | assign | ret | delete | call =>
    cases Stmt.generate_isPlain rfl hok
    exact .inr ⟨nofun, rfl⟩

theorem Mirrors.stmt {s : Stmt} {g g' : Generator} {ds : List Directive}
    (h : Mirrors c Γ g.slots) (hcheck : s.check c ret Γ = .ok Γ')
    (hok : s.generate d g = .ok (ds, g')) : Mirrors c Γ' g'.slots := by
  rcases Stmt.check_scopes hcheck with ⟨b, ty, rfl, _, _, rfl⟩ | ⟨hs, rfl⟩
  · rcases Stmt.generate_slots hok with ⟨b', hb, rfl⟩ | ⟨hs, _⟩
    · cases hb
      exact Scopes.RelAbove.declare h ⟨ty, rfl⟩
    · exact absurd rfl (hs b)
  · rcases Stmt.generate_slots hok with ⟨b', rfl, _⟩ | ⟨_, hslots⟩
    · exact absurd rfl (hs b')
    · rw [hslots]
      exact h

theorem Mirrors.ne_nil (h : Mirrors c Γ slots) : Γ ≠ [] ∧ slots ≠ [] := by
  obtain ⟨inner, rfl, hne, hrel⟩ := h
  exact ⟨by simp [hne], hrel.ne_nil.mp hne⟩

theorem Stmt.check_grows {s : Stmt} (h : s.check c ret Γ = .ok Γ') (hΓ : Γ ≠ []) : Γ.Grows Γ' := by
  rcases Stmt.check_scopes h with ⟨b, ty, _, hnew, _, rfl⟩ | ⟨_, rfl⟩
  · exact .declare hΓ hnew _
  · exact .refl hΓ

theorem generateStmts_grows (ss : List Stmt) {g g' : Generator} {ds : List Directive}
    (hcheck : checkStmts c ret Γ ss = .ok ()) (hm : Mirrors c Γ g.slots)
    (hok : generateStmts d g ss = .ok (ds, g')) : g.slots.Grows g'.slots := by
  induction ss generalizing Γ g ds with
  | nil =>
    cases hok
    exact .refl hm.ne_nil.2
  | cons s rest ih =>
    obtain ⟨first, g₁, hfirst, h⟩ := generateStmts_cons hok
    obtain ⟨Γ₁, hs, hrest⟩ := checkStmts_cons hcheck
    have hg₁ : g.slots.Grows g₁.slots := by
      rcases Stmt.generate_slots hfirst with ⟨b, rfl, rfl⟩ | ⟨_, hslots⟩
      · rcases Stmt.check_scopes hs with ⟨b', _, hb, hnew, _⟩ | ⟨hne, _⟩
        · cases hb
          rw [Scopes.RelAbove.declaredHere hm] at hnew
          exact .declare hm.ne_nil.2 hnew _
        · exact absurd rfl (hne b)
      · rw [hslots]
        exact .refl hm.ne_nil.2
    rcases h with ⟨_, _, rfl⟩ | ⟨hret, more, hmore, _⟩
    · exact hg₁
    · exact hg₁.trans (ih (hrest hret) (hm.stmt hs hfirst) hmore)

theorem params_mirror {params : List Param} {g : Generator} {Γ : Scopes Meaning}
    (hmir : Mirrors c Γ g.slots) :
    Mirrors c (params.foldl (fun s p => s.declare p.name.text (.variable p.note.ty)) Γ)
      (params.foldl (fun g p => g.declare p.name.text) g).slots := by
  induction params generalizing g Γ with
  | nil => exact hmir
  | cons p params ih => exact ih (g := g.declare p.name.text) (hmir.declare ⟨p.note.ty, rfl⟩)

theorem params_sound {params : List Param} {g : Generator} (hg : g.Sound) :
    (params.foldl (fun g p => g.declare p.name.text) g).Sound := by
  induction params generalizing g with
  | nil => exact hg
  | cons p params ih => exact ih (hg.declare p.name.text)

theorem FunDecl.generator_mirrors (f : FunDecl) (c : Catalog) :
    Mirrors c (f.scopes c) f.generator.slots :=
  params_mirror ⟨[[]], rfl, nofun, .cons .nil .nil⟩

theorem FunDecl.generator_sound (f : FunDecl) : f.generator.Sound :=
  params_sound ⟨List.nodup_nil, nofun⟩

end RecordLang

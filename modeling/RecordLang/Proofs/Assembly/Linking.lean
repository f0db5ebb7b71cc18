import Mathlib.Algebra.Ring.Nat
import RecordLang.Assembly
import RecordLang.Proofs.Except

/-! # Linked code

Finished code is that of the directives one after the other, with each jump going to the place of
its label: the index of the instruction that the label stands before.
-/

namespace RecordLang

namespace Directive

def linked (place : Nat → Nat) : Directive → List Instruction
  | .emit i => [i]
  | .newLabel | .bind _ => []
  | .jump l => [.jump (place l)]
  | .jumpIfFalse l => [.jumpIfFalse (place l)]

def size : Directive → Nat
  | .emit _ | .jump _ | .jumpIfFalse _ => 1
  | .newLabel | .bind _ => 0

def bound? : Directive → Option Nat
  | .bind l => some l
  | _ => none

def goal? : Directive → Option Nat
  | .jump l | .jumpIfFalse l => some l
  | _ => none

@[simp]
theorem length_linked (place : Nat → Nat) (d : Directive) : (d.linked place).length = d.size := by
  cases d <;> rfl

theorem linked_of_goal?_eq_none {d : Directive} (h : d.goal? = none) (place place' : Nat → Nat) :
    d.linked place = d.linked place' := by
  cases d with
  | jump l => cases h
  | jumpIfFalse l => cases h
  | _ => rfl

theorem linked_of_goal?_eq_some {d : Directive} {l : Nat} (h : d.goal? = some l) :
    ∃ make : Nat → Instruction, (∀ place, d.linked place = [make (place l)]) ∧
      ∀ target target', Assembly.retarget? target' (make target) = some (make target') := by
  cases d with
  | jump k =>
    cases h
    exact ⟨.jump, fun _ => rfl, fun _ _ => rfl⟩
  | jumpIfFalse k =>
    cases h
    exact ⟨.jumpIfFalse, fun _ => rfl, fun _ _ => rfl⟩
  | _ => cases h

end Directive

def linked (place : Nat → Nat) (ds : List Directive) : List Instruction :=
  ds.flatMap (Directive.linked place)

def codeSize (ds : List Directive) : Nat := (ds.map Directive.size).sum

def goals (ds : List Directive) : List Nat := ds.filterMap Directive.goal?

section Rows

variable (place : Nat → Nat) (d : Directive) (ds ds' : List Directive)

@[simp]
theorem linked_nil : linked place [] = [] := rfl

@[simp]
theorem linked_cons : linked place (d :: ds) = d.linked place ++ linked place ds := rfl

@[simp]
theorem linked_append : linked place (ds ++ ds') = linked place ds ++ linked place ds' :=
  List.flatMap_append

@[simp]
theorem codeSize_nil : codeSize [] = 0 := rfl

@[simp]
theorem codeSize_cons : codeSize (d :: ds) = d.size + codeSize ds := rfl

@[simp]
theorem codeSize_append : codeSize (ds ++ ds') = codeSize ds + codeSize ds' := by
  simp [codeSize]

@[simp]
theorem length_linked : (linked place ds).length = codeSize ds := by
  induction ds with
  | nil => rfl
  | cons d ds ih => simp [ih]

@[simp]
theorem goals_nil : goals [] = [] := rfl

@[simp]
theorem goals_cons : goals (d :: ds) = d.goal?.toList ++ goals ds := by
  cases d <;> rfl

@[simp]
theorem goals_append : goals (ds ++ ds') = goals ds ++ goals ds' := List.filterMap_append

end Rows

/-- The labels that are bound in `ds` have the places they get when its code begins at `base`. -/
def Placed (place : Nat → Nat) : Nat → List Directive → Prop
  | _, [] => True
  | base, d :: ds => (∀ l, d.bound? = some l → place l = base) ∧ Placed place (base + d.size) ds

theorem placed_append {place : Nat → Nat} {base : Nat} {ds ds' : List Directive} :
    Placed place base (ds ++ ds') ↔
      Placed place base ds ∧ Placed place (base + codeSize ds) ds' := by
  induction ds generalizing base with
  | nil => simp [Placed]
  | cons d ds ih => simp [Placed, ih, and_assoc, Nat.add_assoc]

/-- The jumps of a row of directives whose code begins at `base`: their indices and labels. -/
def jumpsOf : Nat → List Directive → List (Nat × Nat)
  | _, [] => []
  | base, d :: ds => (d.goal?.toList.map (base, ·)) ++ jumpsOf (base + d.size) ds

namespace Assembly

variable {a a' : Assembly} {d : Directive} {ds : List Directive}

theorem bind_eq (a : Assembly) (l : Nat) :
    a.bind l =
      if l < a.labels.size then
        match a.place? l with
        | some _ => .error (.labelRebound l)
        | none => .ok { a with labels := a.labels.setIfInBounds l (some a.here) }
      else .error (.unknownLabel l) := by
  unfold bind place?
  by_cases hl : l < a.labels.size
  · cases hplace : a.labels[l] <;> simp [hl, hplace, Array.setIfInBounds]
  · simp [hl]

theorem bind_eq_ok_iff {l : Nat} :
    a.bind l = .ok a' ↔ (l < a.labels.size ∧ a.place? l = none) ∧
      a' = { a with labels := a.labels.setIfInBounds l (some a.here) } := by
  rw [bind_eq]
  by_cases hl : l < a.labels.size
  · cases hplace : a.place? l <;> simp [hl, eq_comm]
  · simp [hl]

theorem apply_code (h : a.apply d = .ok a') :
    a'.code.toList = a.code.toList ++ d.linked fun _ => unresolved := by
  cases d with
  | bind l =>
    obtain ⟨_, rfl⟩ := bind_eq_ok_iff.mp h
    simp [Directive.linked]
  | _ =>
    cases h
    simp [emit, newLabel, jumpTo, Directive.linked]

theorem apply_jumps (h : a.apply d = .ok a') :
    a'.jumps = a.jumps ++ d.goal?.toList.map (a.here, ·) := by
  cases d with
  | bind l =>
    obtain ⟨_, rfl⟩ := bind_eq_ok_iff.mp h
    simp [Directive.goal?]
  | _ =>
    cases h
    simp [emit, newLabel, jumpTo, Directive.goal?]

theorem apply_bound? (h : a.apply d = .ok a') {l : Nat} (hl : d.bound? = some l) :
    l < a.labels.size ∧ a.place? l = none := by
  cases d with
  | bind k =>
    cases hl
    exact (bind_eq_ok_iff.mp h).1
  | _ => cases hl

theorem apply_place? (h : a.apply d = .ok a') (l : Nat) :
    a'.place? l = if d.bound? = some l then some a.here else a.place? l := by
  cases d with
  | bind k =>
    obtain ⟨⟨hk, _⟩, rfl⟩ := bind_eq_ok_iff.mp h
    by_cases heq : k = l
    · subst heq
      simp [place?, Directive.bound?, Array.setIfInBounds, hk]
    · simp [place?, Directive.bound?, heq]
  | newLabel =>
    cases h
    simp only [place?, newLabel, Array.getElem?_push, Directive.bound?]
    by_cases hl : l = a.labels.size <;> simp [hl]
  | _ =>
    cases h
    rfl

/-- What a row of directives adds to code under construction. -/
theorem foldlM_apply (h : ds.foldlM apply a = .ok a') :
    a'.code.toList = a.code.toList ++ linked (fun _ => unresolved) ds ∧
      a'.jumps = a.jumps ++ jumpsOf a.here ds ∧
      (∀ l q, a.place? l = some q → a'.place? l = some q) ∧
      Placed (fun l => (a'.place? l).getD 0) a.here ds := by
  induction ds generalizing a with
  | nil =>
    cases h
    exact ⟨by simp, by simp [jumpsOf], fun _ _ hk => hk, trivial⟩
  | cons d ds ih =>
    rw [List.foldlM_cons, bind_eq_ok] at h
    obtain ⟨a₁, h₁, h⟩ := h
    obtain ⟨hcode, hjumps, hplace, hplaced⟩ := ih h
    have hhere : a₁.here = a.here + d.size := by
      have := congrArg List.length (apply_code h₁)
      simpa [here] using this
    refine ⟨?_, ?_, ?_, ?_, ?_⟩
    · rw [hcode, apply_code h₁, linked_cons, List.append_assoc]
    · rw [hjumps, apply_jumps h₁, hhere, jumpsOf, List.append_assoc]
    · intro l q hq
      apply hplace
      rw [apply_place? h₁, if_neg, hq]
      intro hl
      rw [(apply_bound? h₁ hl).2] at hq
      cases hq
    · intro l hl
      have hat : a₁.place? l = some a.here := by rw [apply_place? h₁, if_pos hl]
      simp [hplace l _ hat]
    · rw [← hhere]
      exact hplaced

theorem resolve_eq {make : Nat → Instruction}
    (hmake : ∀ target target', retarget? target' (make target) = some (make target'))
    {pre post : List Instruction} {code : Array Instruction} {target l : Nat}
    (hcode : code.toList = pre ++ make target :: post) :
    a.resolve code (pre.length, l) =
      match a.place? l with
      | none => .error (.unboundLabel l)
      | some place => .ok (pre ++ make place :: post).toArray := by
  obtain rfl : code = (pre ++ make target :: post).toArray := by rw [← hcode]
  cases hplace : a.place? l with
  | none => simp only [resolve, hplace]
  | some place => simp [resolve, hplace, hmake]

/-- Filling in the jumps of `ds`, in the middle of other code, links them, unless a label has no
place: the first jump to such a label is refused. -/
theorem foldlM_resolve {pre post : List Instruction} {code : Array Instruction}
    (hcode : code.toList = pre ++ linked (fun _ => unresolved) ds ++ post) :
    (jumpsOf pre.length ds).foldlM a.resolve code =
      match (goals ds).find? fun l => (a.place? l).isNone with
      | some l => .error (.unboundLabel l)
      | none => .ok (pre ++ linked (fun l => (a.place? l).getD 0) ds ++ post).toArray := by
  induction ds generalizing pre code with
  | nil =>
    obtain rfl : code = (pre ++ post).toArray := by simpa using congrArg List.toArray hcode
    simp [jumpsOf, pure, Except.pure]
  | cons d ds ih =>
    cases hd : d.goal? with
    | none =>
      have hlinked := Directive.linked_of_goal?_eq_none hd (fun _ => unresolved)
        fun l => (a.place? l).getD 0
      have hcode' : code.toList = (pre ++ d.linked fun l => (a.place? l).getD 0) ++
          linked (fun _ => unresolved) ds ++ post := by
        simpa [← hlinked] using hcode
      have hrest := ih hcode'
      simpa [jumpsOf, hd] using hrest
    | some l =>
      obtain ⟨make, hlinked, hmake⟩ := Directive.linked_of_goal?_eq_some hd
      have hsize : d.size = 1 := by simpa using congrArg List.length (hlinked id)
      have hfirst : code.toList = pre ++ make unresolved ::
          (linked (fun _ => unresolved) ds ++ post) := by
        simpa [hlinked] using hcode
      rw [jumpsOf, hd, goals_cons, hd]
      simp only [Option.toList_some, List.map_cons, List.map_nil, List.singleton_append,
        List.foldlM_cons, List.find?_cons, resolve_eq hmake hfirst]
      cases hplace : a.place? l with
      | none => rfl
      | some place =>
        have hcode' :
            (pre ++ make place :: (linked (fun _ => unresolved) ds ++ post)).toArray.toList =
              (pre ++ [make place]) ++ linked (fun _ => unresolved) ds ++ post := by
          simp
        have hrest := ih hcode'
        simpa [Bind.bind, Except.bind, hsize, hlinked, hplace] using hrest

theorem finish_eq (hcode : a.code.toList = linked (fun _ => unresolved) ds)
    (hjumps : a.jumps = jumpsOf 0 ds) :
    a.finish =
      match (goals ds).find? fun l => (a.place? l).isNone with
      | some l => .error (.unboundLabel l)
      | none => .ok (linked (fun l => (a.place? l).getD 0) ds).toArray := by
  have hcode' : a.code.toList = [] ++ linked (fun _ => unresolved) ds ++ [] := by
    simpa using hcode
  have hresolve := foldlM_resolve (a := a) hcode'
  rw [finish, hjumps]
  simpa using hresolve

end Assembly

theorem assemble_eq_ok {ds : List Directive} {code : Array Instruction}
    (h : assemble ds = .ok code) :
    ∃ place, Placed place 0 ds ∧ code.toList = linked place ds := by
  unfold assemble at h
  obtain ⟨a, ha, hfinish⟩ := bind_eq_ok.mp h
  obtain ⟨hcode, hjumps, _, hplaced⟩ := Assembly.foldlM_apply ha
  refine ⟨fun l => (a.place? l).getD 0, hplaced, ?_⟩
  rw [Assembly.finish_eq (by simpa [Assembly.empty] using hcode)
    (by simpa [Assembly.empty, Assembly.here] using hjumps)] at hfinish
  split at hfinish
  next => cases hfinish
  next =>
    cases hfinish
    rfl

end RecordLang

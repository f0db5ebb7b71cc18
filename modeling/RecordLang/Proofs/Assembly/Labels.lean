import RecordLang.Compile.Stmt
import RecordLang.Proofs.Assembly.Linking

/-! # Labels of directives

Directives can be assembled if each label is made before it is bound, no label is bound twice, and
every label that a jump goes to is bound.
-/

namespace RecordLang

def boundLabels (ds : List Directive) : List Nat := ds.filterMap Directive.bound?

/-- How many labels there are behind a row of directives that begins with `n` labels, if it binds
only labels that have been made. -/
def labelsAfter? : Nat → List Directive → Option Nat
  | n, [] => some n
  | n, .newLabel :: ds => labelsAfter? (n + 1) ds
  | n, .bind l :: ds => if l < n then labelsAfter? n ds else none
  | n, _ :: ds => labelsAfter? n ds

section Rows

variable (ds ds' : List Directive) (code code' : Code)

@[simp]
theorem emits_nil : emits [] = [] := rfl

@[simp]
theorem emits_append : emits (code ++ code') = emits code ++ emits code' := List.map_append

@[simp]
theorem emits_cons (i : Instruction) : emits (i :: code) = .emit i :: emits code := rfl

@[simp]
theorem boundLabels_append : boundLabels (ds ++ ds') = boundLabels ds ++ boundLabels ds' :=
  List.filterMap_append

@[simp]
theorem boundLabels_cons (d : Directive) :
    boundLabels (d :: ds) = d.bound?.toList ++ boundLabels ds := by
  cases d <;> rfl

@[simp]
theorem boundLabels_nil : boundLabels [] = [] := rfl

@[simp]
theorem boundLabels_emits : boundLabels (emits code) = [] := by
  induction code with
  | nil => rfl
  | cons i code ih => exact ih

@[simp]
theorem goals_emits : goals (emits code) = [] := by
  induction code with
  | nil => rfl
  | cons i code ih => exact ih

theorem labelsAfter?_append (n : Nat) :
    labelsAfter? n (ds ++ ds') = (labelsAfter? n ds).bind (labelsAfter? · ds') := by
  fun_induction labelsAfter? n ds with
  | case1 n => rfl
  | case2 n ds ih => simpa [labelsAfter?] using ih
  | case3 n l ds hl ih => simpa [labelsAfter?, hl] using ih
  | case4 n l ds hl => simp [labelsAfter?, hl]
  | case5 n d ds h₁ h₂ ih =>
    cases d with
    | newLabel => exact (h₁ rfl).elim
    | bind l => exact (h₂ l rfl).elim
    | _ => exact ih

@[simp]
theorem labelsAfter?_emits (n : Nat) : labelsAfter? n (emits code) = some n := by
  induction code with
  | nil => rfl
  | cons i code ih => exact ih

end Rows

namespace Assembly

variable {a : Assembly} {ds : List Directive}

theorem exists_apply {d : Directive} {n : Nat}
    (hn : labelsAfter? a.labels.size (d :: ds) = some n)
    (hfree : ∀ l, d.bound? = some l → a.place? l = none) :
    ∃ a', a.apply d = .ok a' ∧ labelsAfter? a'.labels.size ds = some n := by
  cases d with
  | emit i => exact ⟨_, rfl, hn⟩
  | jump l => exact ⟨_, rfl, hn⟩
  | jumpIfFalse l => exact ⟨_, rfl, hn⟩
  | newLabel => exact ⟨_, rfl, by simpa [newLabel, labelsAfter?] using hn⟩
  | bind l =>
    simp only [labelsAfter?] at hn
    split at hn
    next hlt => exact ⟨_, bind_eq_ok_iff.mpr ⟨⟨hlt, hfree l rfl⟩, rfl⟩, by simpa using hn⟩
    next => cases hn

theorem exists_foldlM_apply {n : Nat} (hn : labelsAfter? a.labels.size ds = some n)
    (hnd : (boundLabels ds).Nodup) (hfree : ∀ l ∈ boundLabels ds, a.place? l = none) :
    ∃ a', ds.foldlM apply a = .ok a' ∧ ∀ l ∈ boundLabels ds, (a'.place? l).isSome := by
  induction ds generalizing a with
  | nil => exact ⟨a, rfl, nofun⟩
  | cons d ds ih =>
    rw [boundLabels_cons] at hnd hfree ⊢
    obtain ⟨_, hnd', hdis⟩ := List.nodup_append.mp hnd
    obtain ⟨a₁, h₁, hn₁⟩ := exists_apply hn fun l hl => hfree l (by simp [hl])
    have hfree₁ : ∀ l ∈ boundLabels ds, a₁.place? l = none := by
      intro l hl
      have hb : d.bound? ≠ some l := fun hb => hdis l (by simp [hb]) l hl rfl
      rw [apply_place? h₁, if_neg hb]
      exact hfree l (List.mem_append_right _ hl)
    obtain ⟨a₂, h₂, hplaced⟩ := ih hn₁ hnd' hfree₁
    refine ⟨a₂, ?_, ?_⟩
    · rw [List.foldlM_cons, bind_eq_ok]
      exact ⟨a₁, h₁, h₂⟩
    · intro l hl
      rcases List.mem_append.mp hl with hl | hl
      · have hat : a₁.place? l = some a.here := by
          rw [apply_place? h₁, if_pos (by simpa using hl)]
        rw [(foldlM_apply h₂).2.2.1 l _ hat]
        rfl
      · exact hplaced l hl

end Assembly

theorem exists_assemble {ds : List Directive} {n : Nat} (hn : labelsAfter? 0 ds = some n)
    (hnd : (boundLabels ds).Nodup) (hgoals : ∀ l ∈ goals ds, l ∈ boundLabels ds) :
    ∃ code, assemble ds = .ok code := by
  have hfree : ∀ l ∈ boundLabels ds, Assembly.empty.place? l = none := fun _ _ => rfl
  obtain ⟨a, ha, hplaced⟩ := Assembly.exists_foldlM_apply (a := .empty) hn hnd hfree
  obtain ⟨hcode, hjumps, _⟩ := Assembly.foldlM_apply ha
  have hall : (goals ds).find? (fun l => (a.place? l).isNone) = none := by
    rw [List.find?_eq_none]
    intro l hl
    simpa [Option.isSome_iff_ne_none] using hplaced l (hgoals l hl)
  have hcode' : a.code.toList = linked (fun _ => Assembly.unresolved) ds := by
    simpa [Assembly.empty] using hcode
  have hjumps' : a.jumps = jumpsOf 0 ds := by
    simpa [Assembly.empty, Assembly.here] using hjumps
  have hfinish := Assembly.finish_eq hcode' hjumps'
  rw [hall] at hfinish
  exact ⟨_, bind_eq_ok.mpr ⟨a, ha, hfinish⟩⟩

/-- A row of directives makes `k` labels from `n` on and binds each of them once; its jumps go to
these labels or to those in `outer`. -/
structure OwnLabels (n k : Nat) (outer : List Nat) (ds : List Directive) : Prop where
  made : labelsAfter? n ds = some (n + k)
  bound : (boundLabels ds).Perm (List.range' n k)
  goals : ∀ l ∈ goals ds, (n ≤ l ∧ l < n + k) ∨ l ∈ outer

namespace OwnLabels

variable {n k j : Nat} {outer : List Nat} {ds ds' : List Directive}

theorem mem_boundLabels (h : OwnLabels n k outer ds) {l : Nat} :
    l ∈ boundLabels ds ↔ n ≤ l ∧ l < n + k := by
  rw [h.bound.mem_iff, List.mem_range'_1]

theorem emits (n : Nat) (outer : List Nat) (code : Code) : OwnLabels n 0 outer (emits code) :=
  ⟨by simp, by simp, by simp⟩

theorem weaken (h : OwnLabels n k [] ds) (outer : List Nat) : OwnLabels n k outer ds := by
  refine ⟨h.made, h.bound, ?_⟩
  intro l hl
  rcases h.goals l hl with hown | hout
  · exact .inl hown
  · cases hout

theorem append (h : OwnLabels n k outer ds) (h' : OwnLabels (n + k) j outer ds') :
    OwnLabels n (k + j) outer (ds ++ ds') := by
  refine ⟨?_, ?_, ?_⟩
  · simp [labelsAfter?_append, h.made, h'.made, Nat.add_assoc]
  · rw [boundLabels_append, ← List.range'_append_1]
    exact h.bound.append h'.bound
  · intro l hl
    rw [goals_append, List.mem_append] at hl
    rcases hl with hl | hl
    · rcases h.goals l hl with hown | hout
      · exact .inl (by omega)
      · exact .inr hout
    · rcases h'.goals l hl with hown | hout
      · exact .inl (by omega)
      · exact .inr hout

theorem cond (h : OwnLabels (n + 1) k [n] ds) :
    OwnLabels n (k + 1) [] (Directive.newLabel :: ds ++ [Directive.bind n]) := by
  refine ⟨?_, ?_, ?_⟩
  · have hlt : n < n + 1 + k := by omega
    simp [labelsAfter?, labelsAfter?_append, h.made, hlt]
    omega
  · have hbs : boundLabels (Directive.newLabel :: ds ++ [Directive.bind n]) =
        boundLabels ds ++ [n] := by
      simp [Directive.bound?]
    rw [hbs, List.range'_succ]
    exact (List.perm_append_singleton n _).trans (h.bound.cons n)
  · intro l hl
    have hgs : RecordLang.goals (.newLabel :: ds ++ [.bind n]) = RecordLang.goals ds := by
      simp [Directive.goal?]
    rw [hgs] at hl
    rcases h.goals l hl with hown | hout
    · exact .inl (by omega)
    · exact .inl (by simp at hout; omega)

theorem loop (h : OwnLabels (n + 2) k [] ds) (enter test next : Code) :
    OwnLabels n (k + 2) [] (Directive.newLabel :: Directive.newLabel :: RecordLang.emits enter ++
      Directive.bind n :: RecordLang.emits test ++ Directive.jumpIfFalse (n + 1) :: ds ++
      RecordLang.emits next ++ [Directive.jump n, .bind (n + 1)]) := by
  refine ⟨?_, ?_, ?_⟩
  · have hn : n < n + 1 + 1 := by omega
    have hlt : n + 1 < n + 2 + k := by omega
    simp [labelsAfter?, labelsAfter?_append, h.made, hn, hlt]
    omega
  · have hbs : boundLabels (Directive.newLabel :: Directive.newLabel :: RecordLang.emits enter ++
        Directive.bind n :: RecordLang.emits test ++ Directive.jumpIfFalse (n + 1) :: ds ++
        RecordLang.emits next ++ [Directive.jump n, .bind (n + 1)]) =
          n :: (boundLabels ds ++ [n + 1]) := by
      simp [Directive.bound?]
    rw [hbs, List.range'_succ, List.range'_succ]
    exact ((List.perm_append_singleton (n + 1) _).trans (h.bound.cons (n + 1))).cons n
  · intro l hl
    have hgs : l = n + 1 ∨ l ∈ RecordLang.goals ds ∨ l = n := by
      simpa [Directive.goal?] using hl
    rcases hgs with rfl | hl | rfl
    · exact .inl (by omega)
    · rcases h.goals l hl with hown | hout
      · exact .inl (by omega)
      · cases hout
    · exact .inl (by omega)

/-- A branch whose test leads to the label `n` if it fails; `leave` is how its body ends. -/
theorem branch (h : OwnLabels (n + 1) k [] ds) (h' : OwnLabels (n + 1 + k) j outer ds')
    (test : Code) {leave : List Directive} (hleave : leave = [] ∨ ∃ l ∈ outer, leave = [.jump l]) :
    OwnLabels n (k + j + 1) outer (.newLabel :: RecordLang.emits test ++ .jumpIfFalse n :: ds ++
      leave ++ .bind n :: ds') := by
  have hmade : ∀ m, labelsAfter? m leave = some m := by
    rcases hleave with rfl | ⟨l, _, rfl⟩ <;> exact fun m => rfl
  have hbound : boundLabels leave = [] := by
    rcases hleave with rfl | ⟨l, _, rfl⟩ <;> rfl
  have hgoals : ∀ l ∈ RecordLang.goals leave, l ∈ outer := by
    rcases hleave with rfl | ⟨l, hl, rfl⟩
    · nofun
    · intro l' hl'
      simp [Directive.goal?] at hl'
      exact hl' ▸ hl
  refine ⟨?_, ?_, ?_⟩
  · have hlt : n < n + 1 + k := by omega
    simp [labelsAfter?, labelsAfter?_append, h.made, h'.made, hmade, hlt]
    omega
  · have hbs : boundLabels (.newLabel :: RecordLang.emits test ++ .jumpIfFalse n :: ds ++ leave ++
        .bind n :: ds') = boundLabels ds ++ n :: boundLabels ds' := by
      simp [Directive.bound?, hbound]
    rw [hbs, List.range'_succ, ← List.range'_append_1]
    exact List.perm_middle.trans ((h.bound.append h'.bound).cons n)
  · intro l hl
    have hgs : l = n ∨ l ∈ RecordLang.goals ds ∨ l ∈ RecordLang.goals leave ∨
        l ∈ RecordLang.goals ds' := by
      simpa [Directive.goal?] using hl
    rcases hgs with rfl | hl | hl | hl
    · exact .inl (by omega)
    · rcases h.goals l hl with hown | hout
      · exact .inl (by omega)
      · cases hout
    · exact .inr (hgoals l hl)
    · rcases h'.goals l hl with hown | hout
      · exact .inl (by omega)
      · exact .inr hout

theorem exists_assemble (h : OwnLabels 0 k [] ds) : ∃ code, assemble ds = .ok code := by
  apply RecordLang.exists_assemble h.made (h.bound.nodup_iff.mpr List.nodup_range')
  intro l hl
  rcases h.goals l hl with hown | hout
  · exact h.mem_boundLabels.mpr hown
  · cases hout

end OwnLabels

end RecordLang

import Mathlib.Logic.Relation
import RecordLang.Proofs.Typing.Declarations

/-! # No record makes itself

If the search for a construction that leads back to a record ends without finding one, the records
it has been through are closed under construction and the record is not made by any of them. If it
finds one, it has followed constructions from the record to itself.
-/

namespace RecordLang.Program

def Makes (p : Program) (a b : String) : Prop := ∃ target ∈ p.constructions a, target.text = b

variable {p : Program} {root : String}

/-- The search is closed but for what is left to follow. -/
def Followed (p : Program) (root : String) (fresh : List String) (work : List Ident) : Prop :=
  ∀ x y, x ∉ fresh → p.Makes x y → (∃ target ∈ work, target.text = y) ∨ (y ∉ fresh ∧ y ≠ root)

theorem findConstruction?_eq_none {fresh : List String} {work : List Ident}
    (h : p.findConstruction? root fresh work = none) (hnd : fresh.Nodup) (hroot : root ∉ fresh)
    (hw : p.Followed root fresh work) :
    ∃ done : String → Prop, done root ∧ ∀ x y, done x → p.Makes x y → done y ∧ y ≠ root := by
  fun_induction findConstruction? p root fresh work with
  | case1 fresh =>
    refine ⟨(· ∉ fresh), hroot, ?_⟩
    intro x y hx hy
    rcases hw x y hx hy with ⟨_, hmem, _⟩ | hdone
    · cases hmem
    · exact hdone
  | case2 fresh target rest htarget => cases h
  | case3 fresh target rest hne hmem ih =>
    apply ih h (hnd.erase _) (fun hr => hroot (List.mem_of_mem_erase hr))
    intro x y hx hy
    by_cases hxt : x = target.text
    · subst hxt
      obtain ⟨made, hmade, rfl⟩ := hy
      exact .inl ⟨made, List.mem_append_left _ (List.mem_reverse.mpr hmade), rfl⟩
    · have hx' : x ∉ fresh := fun hf => hx ((List.mem_erase_of_ne hxt).mpr hf)
      rcases hw x y hx' hy with ⟨made, hmade, rfl⟩ | ⟨hy', hyr⟩
      · rcases List.mem_cons.mp hmade with rfl | hmade
        · exact .inr ⟨fun hf => (hnd.mem_erase_iff.mp hf).1 rfl, hne⟩
        · exact .inl ⟨made, List.mem_append_right _ hmade, rfl⟩
      · exact .inr ⟨fun hf => hy' (List.mem_of_mem_erase hf), hyr⟩
  | case4 fresh target rest hne hmem ih =>
    apply ih h hnd hroot
    intro x y hx hy
    rcases hw x y hx hy with ⟨made, hmade, rfl⟩ | hdone
    · rcases List.mem_cons.mp hmade with rfl | hmade
      · exact .inr ⟨hmem, hne⟩
      · exact .inl ⟨made, hmade, rfl⟩
    · exact .inr hdone

/-- What the search follows is made on the way from the record, and what it finds is the record. -/
theorem findConstruction?_eq_some {fresh : List String} {work : List Ident} {target : Ident}
    (h : p.findConstruction? root fresh work = some target)
    (hw : ∀ made ∈ work, ∃ a, Relation.ReflTransGen p.Makes root a ∧ made ∈ p.constructions a) :
    target.text = root ∧
      ∃ a, Relation.ReflTransGen p.Makes root a ∧ target ∈ p.constructions a := by
  fun_induction findConstruction? p root fresh work with
  | case1 fresh => cases h
  | case2 fresh target rest htarget =>
    cases h
    exact ⟨htarget, hw target (.head _)⟩
  | case3 fresh target rest hne hmem ih =>
    apply ih h
    intro made hmade
    rcases List.mem_append.mp hmade with hmade | hmade
    · obtain ⟨a, ha, htarget⟩ := hw target (.head _)
      exact ⟨target.text, ha.tail ⟨target, htarget, rfl⟩, List.mem_reverse.mp hmade⟩
    · exact hw made (.tail _ hmade)
  | case4 fresh target rest hne hmem ih => exact ih h fun made hmade => hw made (.tail _ hmade)

theorem Makes.declared {x y : String} (h : p.Makes x y) : ∃ d ∈ p.records, d.name.text = x := by
  obtain ⟨target, hmem, _⟩ := h
  unfold constructions at hmem
  split at hmem
  next d hd => exact ⟨d, List.mem_of_find?_eq_some hd, by simpa using List.find?_some hd⟩
  next => cases hmem

/-- A record that passes the check is not made on the way to its own making. -/
theorem not_makes_self (hnd : (p.records.map (·.name.text)).Nodup) {d : RecordDecl}
    (h : p.checkConstruction d = .ok ()) :
    ¬ Relation.TransGen p.Makes d.name.text d.name.text := by
  unfold checkConstruction at h
  simp only at h
  split at h
  next => cases h
  next hnone =>
    have hroot : d.name.text ∉ (p.records.map (·.name.text)).erase d.name.text :=
      fun hmem => (hnd.mem_erase_iff.mp hmem).1 rfl
    have hw : p.Followed d.name.text ((p.records.map (·.name.text)).erase d.name.text)
        (p.constructions d.name.text).reverse := by
      intro x y hx hy
      by_cases hxd : x = d.name.text
      · obtain ⟨made, hmade, rfl⟩ := hxd ▸ hy
        exact .inl ⟨made, List.mem_reverse.mpr hmade, rfl⟩
      · obtain ⟨d', hd', rfl⟩ := hy.declared
        have hmem : d'.name.text ∈ p.records.map (·.name.text) := List.mem_map.mpr ⟨d', hd', rfl⟩
        exact absurd ((List.mem_erase_of_ne hxd).mpr hmem) hx
    obtain ⟨done, hdone, hclosed⟩ := findConstruction?_eq_none hnone (hnd.erase _) hroot hw
    have hreach : ∀ z, Relation.TransGen p.Makes d.name.text z → done z ∧ z ≠ d.name.text := by
      intro z hz
      induction hz with
      | single hy => exact hclosed _ _ hdone hy
      | tail _ hy ih => exact hclosed _ _ ih.1 hy
    exact fun hself => (hreach _ hself).2 rfl

/-- A record that is refused is made again on the way to its own making, at the place that the error
tells. -/
theorem checkConstruction_eq_error {d : RecordDecl} {e : TypeError}
    (h : p.checkConstruction d = .error e) :
    ∃ (target : Ident) (a : String), e = ⟨some target.pos, .selfConstruction d.name.text⟩ ∧
      target.text = d.name.text ∧ Relation.ReflTransGen p.Makes d.name.text a ∧
      target ∈ p.constructions a := by
  unfold checkConstruction at h
  simp only at h
  split at h
  next target htarget =>
    cases h
    have hstart : ∀ made ∈ (p.constructions d.name.text).reverse,
        ∃ a, Relation.ReflTransGen p.Makes d.name.text a ∧ made ∈ p.constructions a :=
      fun made hmade => ⟨_, .refl, List.mem_reverse.mp hmade⟩
    obtain ⟨htext, a, ha, hmem⟩ := findConstruction?_eq_some htarget hstart
    exact ⟨target, a, rfl, htext, ha, hmem⟩
  next => cases h

/-- A record that is not made on the way to its own making passes the check. -/
theorem checkConstruction_eq_ok {d : RecordDecl}
    (h : ¬ Relation.TransGen p.Makes d.name.text d.name.text) :
    p.checkConstruction d = .ok () := by
  cases hd : p.checkConstruction d with
  | ok u => rfl
  | error e =>
    obtain ⟨target, a, _, htext, ha, hmem⟩ := checkConstruction_eq_error hd
    exact absurd (Relation.TransGen.tail' ha ⟨target, hmem, htext⟩) h

/-- In a checked program no record makes itself, directly or through others. -/
theorem makes_acyclic (hnd : (p.records.map (·.name.text)).Nodup)
    (h : ∀ d ∈ p.records, p.checkConstruction d = .ok ()) (x : String) :
    ¬ Relation.TransGen p.Makes x x := by
  intro hself
  obtain ⟨y, hy, _⟩ := Relation.TransGen.head'_iff.mp hself
  obtain ⟨d, hd, rfl⟩ := hy.declared
  exact not_makes_self hnd (h d hd) hself

/-- The check of constructions depends on which records make which, not on their order. -/
theorem checkConstruction_congr {p' : Program} (hnd : (p.records.map (·.name.text)).Nodup)
    (hmakes : ∀ x y, p'.Makes x y → p.Makes x y)
    (h : ∀ d ∈ p.records, p.checkConstruction d = .ok ()) (d : RecordDecl) :
    p'.checkConstruction d = .ok () := by
  apply checkConstruction_eq_ok
  intro hself
  exact makes_acyclic hnd h _ (Relation.TransGen.mono hmakes _ _ hself)

end RecordLang.Program

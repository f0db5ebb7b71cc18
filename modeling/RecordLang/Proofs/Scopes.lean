import RecordLang.Proofs.Evaluation.Tree

/-! # Scopes that agree

Checking, code generation and evaluation open, fill and close their scopes in the same way. Two
stacks of scopes agree if they declare the same names in the same order, with meanings that are
related.
-/

namespace RecordLang

variable {α β : Type} {R : α → β → Prop}

namespace Table

inductive Rel (R : α → β → Prop) : Table α → Table β → Prop where
  | nil : Rel R [] []
  | cons {x : String} {a : α} {b : β} {t : Table α} {u : Table β} (h : R a b) (ht : Rel R t u) :
      Rel R ((x, a) :: t) ((x, b) :: u)

variable {t : Table α} {u : Table β} {x : String} {a : α} {b : β}

theorem Rel.mono {R' : α → β → Prop} (hR : ∀ a b, R a b → R' a b) (h : Rel R t u) :
    Rel R' t u := by
  induction h with
  | nil => exact .nil
  | cons h _ ih => exact .cons (hR _ _ h) ih

theorem Rel.get? (h : Rel R t u) (ha : t.get? x = some a) : ∃ b, u.get? x = some b ∧ R a b := by
  induction h with
  | nil => cases ha
  | @cons y _ _ _ _ h _ ih =>
    rw [get?_cons] at ha
    rw [get?_cons]
    split at ha
    next hx =>
      obtain rfl := Option.some.inj ha
      exact ⟨_, if_pos hx, h⟩
    next hx =>
      rw [if_neg hx]
      exact ih ha

theorem Rel.get?_eq_none (h : Rel R t u) : t.get? x = none ↔ u.get? x = none := by
  induction h with
  | nil => simp [get?_nil]
  | @cons y _ _ _ _ h _ ih =>
    rw [get?_cons, get?_cons]
    split
    next => simp
    next => exact ih

theorem Rel.has (h : Rel R t u) : t.has x = u.has x := by
  have := h.get?_eq_none (x := x)
  unfold Table.has
  cases ht : t.get? x <;> cases hu : u.get? x <;> simp_all

theorem Rel.put (h : Rel R t u) (hab : R a b) : Rel R (t.put x a) (u.put x b) := by
  induction h with
  | nil => exact .cons hab .nil
  | cons h ht ih =>
    unfold Table.put
    split
    next => exact .cons hab ht
    next => exact .cons h ih

theorem Rel.put_right (h : Rel R t u) (ha : t.get? x = some a) (hab : R a b) :
    Rel R t (u.put x b) := by
  induction h with
  | nil => cases ha
  | @cons y _ _ _ _ h ht ih =>
    rw [get?_cons] at ha
    unfold Table.put
    split at ha
    next hx =>
      obtain rfl := Option.some.inj ha
      rw [if_pos hx]
      exact .cons hab ht
    next hx =>
      rw [if_neg hx]
      exact .cons h (ih ha)

def meanings (t : Table α) : List α := t.map Prod.snd

theorem mem_meanings_put {c : α} (h : c ∈ (t.put x a).meanings) : c = a ∨ c ∈ t.meanings := by
  induction t with
  | nil => exact .inl (List.mem_singleton.mp h)
  | cons e t ih =>
    obtain ⟨k, w⟩ := e
    unfold Table.put at h
    split at h
    next =>
      rcases List.mem_cons.mp h with h | h
      · exact .inl h
      · exact .inr (.tail _ h)
    next =>
      rcases List.mem_cons.mp h with h | h
      · exact .inr (h ▸ .head _)
      · rcases ih h with h | h
        · exact .inl h
        · exact .inr (.tail _ h)

theorem nodup_meanings_put (ht : t.meanings.Nodup) (ha : a ∉ t.meanings) :
    (t.put x a).meanings.Nodup := by
  induction t with
  | nil => exact List.nodup_cons.mpr ⟨List.not_mem_nil, List.nodup_nil⟩
  | cons e t ih =>
    obtain ⟨k, w⟩ := e
    obtain ⟨hw, ht⟩ := List.nodup_cons.mp ht
    obtain ⟨hne, ha⟩ := List.ne_and_not_mem_of_not_mem_cons ha
    unfold Table.put
    split
    next => exact List.nodup_cons.mpr ⟨ha, ht⟩
    next =>
      refine List.nodup_cons.mpr ⟨?_, ih ht ha⟩
      intro hmem
      rcases mem_meanings_put hmem with h | h
      · exact hne h.symm
      · exact hw h

theorem mem_meanings_of_get? (ha : t.get? x = some a) : a ∈ t.meanings := by
  induction t with
  | nil => cases ha
  | cons e t ih =>
    obtain ⟨k, w⟩ := e
    rw [get?_cons] at ha
    split at ha
    next => exact Option.some.inj ha ▸ .head _
    next => exact .tail _ (ih ha)

/-- What holds of all other meanings carries over when one changes that no other name shares. -/
theorem Rel.mono_of_not_mem {R' : α → β → Prop} (hR : ∀ c d, c ≠ a → R c d → R' c d)
    (h : Rel R t u) (ha : a ∉ t.meanings) : Rel R' t u := by
  induction h with
  | nil => exact .nil
  | cons h _ ih =>
    obtain ⟨hne, ha⟩ := List.ne_and_not_mem_of_not_mem_cons ha
    exact .cons (hR _ _ (Ne.symm hne) h) (ih ha)

theorem Rel.put_of_nodup {R' : α → β → Prop} (hR : ∀ c d, c ≠ a → R c d → R' c d) (h : Rel R t u)
    (ht : t.meanings.Nodup) (ha : t.get? x = some a) (hab : R' a b) : Rel R' t (u.put x b) := by
  induction h with
  | nil => cases ha
  | @cons y _ _ _ _ h hrel ih =>
    obtain ⟨hnot, ht⟩ := List.nodup_cons.mp ht
    rw [get?_cons] at ha
    unfold Table.put
    split at ha
    next hx =>
      obtain rfl := Option.some.inj ha
      rw [if_pos hx]
      exact .cons hab (hrel.mono_of_not_mem hR hnot)
    next hx =>
      rw [if_neg hx]
      have hne := ne_of_mem_of_not_mem (mem_meanings_of_get? ha) hnot
      exact .cons (hR _ _ (Ne.symm hne) h) (ih ht ha)

end Table

namespace Scopes

inductive Rel (R : α → β → Prop) : Scopes α → Scopes β → Prop where
  | nil : Rel R [] []
  | cons {t : Table α} {u : Table β} {s : Scopes α} {e : Scopes β} (ht : t.Rel R u)
      (hs : Rel R s e) : Rel R (t :: s) (u :: e)

variable {s : Scopes α} {e : Scopes β} {x : String} {a : α} {b : β}

theorem Rel.mono {R' : α → β → Prop} (hR : ∀ a b, R a b → R' a b) (h : Rel R s e) :
    Rel R' s e := by
  induction h with
  | nil => exact .nil
  | cons ht _ ih => exact .cons (ht.mono hR) ih

theorem Rel.push (h : Rel R s e) : Rel R s.push e.push := .cons .nil h

theorem Rel.pop (h : Rel R s e) : Rel R s.pop e.pop := by
  cases h with
  | nil => exact .nil
  | cons _ hs => exact hs

theorem Rel.ne_nil (h : Rel R s e) : s ≠ [] ↔ e ≠ [] := by
  cases h <;> simp

theorem Rel.declare (h : Rel R s e) (hab : R a b) : Rel R (s.declare x a) (e.declare x b) := by
  cases h with
  | nil => exact .nil
  | cons ht hs => exact .cons (ht.put hab) hs

theorem Rel.find? (h : Rel R s e) (ha : s.find? x = some a) : ∃ b, e.find? x = some b ∧ R a b := by
  induction h with
  | nil => cases ha
  | @cons t u s e ht _ ih =>
    unfold Scopes.find? at ha ⊢
    split at ha
    next a' ha' =>
      obtain rfl := Option.some.inj ha
      obtain ⟨b, hb, hab⟩ := ht.get? ha'
      exact ⟨b, by rw [hb], hab⟩
    next ha' =>
      rw [ht.get?_eq_none.mp ha']
      exact ih ha

/-- A variable that is there can be given any value that is related to its meaning. -/
theorem Rel.assign? (h : Rel R s e) (ha : s.find? x = some a) (hab : R a b) :
    ∃ e', e.assign? x b = some e' ∧ Rel R s e' := by
  induction h with
  | nil => cases ha
  | @cons t u s e ht hs ih =>
    unfold Scopes.find? at ha
    unfold Scopes.assign?
    split at ha
    next a' ha' =>
      obtain rfl := Option.some.inj ha
      have hu : u.has x = true := by
        rw [← ht.has]
        simp [Table.has, ha']
      exact ⟨_, if_pos hu, .cons (ht.put_right ha' hab) hs⟩
    next ha' =>
      have hu : ¬ u.has x = true := by
        rw [← ht.has]
        simp [Table.has, ha']
      obtain ⟨e', he', hrel⟩ := ih ha
      exact ⟨u :: e', by rw [if_neg hu, he']; rfl, .cons ht hrel⟩

def meanings (s : Scopes α) : List α := s.flatMap Table.meanings

@[simp]
theorem meanings_nil : meanings ([] : Scopes α) = [] := rfl

@[simp]
theorem meanings_cons (t : Table α) (s : Scopes α) :
    meanings (t :: s) = t.meanings ++ s.meanings := rfl

theorem mem_meanings_declare {c : α} (h : c ∈ (s.declare x a).meanings) :
    c = a ∨ c ∈ s.meanings := by
  cases s with
  | nil => cases h
  | cons t s =>
    rcases List.mem_append.mp h with h | h
    · rcases Table.mem_meanings_put h with h | h
      · exact .inl h
      · exact .inr (List.mem_append_left _ h)
    · exact .inr (List.mem_append_right _ h)

theorem nodup_meanings_declare (hs : s.meanings.Nodup) (ha : a ∉ s.meanings) :
    (s.declare x a).meanings.Nodup := by
  cases s with
  | nil => exact hs
  | cons t s =>
    obtain ⟨ht, hs, hdis⟩ := List.nodup_append.mp hs
    have hat : a ∉ t.meanings := fun h => ha (List.mem_append_left _ h)
    have has : a ∉ meanings s := fun h => ha (List.mem_append_right _ h)
    refine List.nodup_append.mpr ⟨Table.nodup_meanings_put ht hat, hs, ?_⟩
    intro c hc d hd
    rcases Table.mem_meanings_put hc with rfl | hc
    · exact (ne_of_mem_of_not_mem hd has).symm
    · exact hdis c hc d hd

theorem mem_meanings_of_find? (ha : s.find? x = some a) : a ∈ s.meanings := by
  induction s with
  | nil => cases ha
  | cons t s ih =>
    unfold Scopes.find? at ha
    split at ha
    next a' ha' =>
      obtain rfl := Option.some.inj ha
      exact List.mem_append_left _ (Table.mem_meanings_of_get? ha')
    next => exact List.mem_append_right _ (ih ha)

theorem Rel.mono_of_not_mem {R' : α → β → Prop} (hR : ∀ c d, c ≠ a → R c d → R' c d)
    (h : Rel R s e) (ha : a ∉ s.meanings) : Rel R' s e := by
  induction h with
  | nil => exact .nil
  | cons ht _ ih =>
    have hat := fun h => ha (List.mem_append_left _ h)
    exact .cons (ht.mono_of_not_mem hR hat) (ih fun h => ha (List.mem_append_right _ h))

/-- Where no two names share a meaning, giving one of them a new value leaves the others alone. -/
theorem Rel.assign?_of_nodup {R' : α → β → Prop} (hR : ∀ c d, c ≠ a → R c d → R' c d)
    (h : Rel R s e) (hs : s.meanings.Nodup) (ha : s.find? x = some a) (hab : R' a b) :
    ∃ e', e.assign? x b = some e' ∧ Rel R' s e' := by
  induction h with
  | nil => cases ha
  | @cons t u s e ht hrel ih =>
    obtain ⟨htn, hsn, hdis⟩ := List.nodup_append.mp hs
    unfold Scopes.find? at ha
    unfold Scopes.assign?
    split at ha
    next a' ha' =>
      obtain rfl := Option.some.inj ha
      have hu : u.has x = true := by
        rw [← ht.has]
        simp [Table.has, ha']
      have hnot : a' ∉ meanings s := fun h =>
        hdis a' (Table.mem_meanings_of_get? ha') a' h rfl
      exact ⟨_, if_pos hu, .cons (ht.put_of_nodup hR htn ha' hab) (hrel.mono_of_not_mem hR hnot)⟩
    next ha' =>
      have hu : ¬ u.has x = true := by
        rw [← ht.has]
        simp [Table.has, ha']
      have hnot : a ∉ t.meanings := fun h => hdis a h a (mem_meanings_of_find? ha) rfl
      obtain ⟨e', he', hrel'⟩ := ih hsn ha
      exact ⟨u :: e', by rw [if_neg hu, he']; rfl, .cons (ht.mono_of_not_mem hR hnot) hrel'⟩

theorem find?_append (s s' : Scopes α) (x : String) :
    find? (s ++ s') x = (s.find? x).or (s'.find? x) := by
  induction s with
  | nil => rfl
  | cons t s ih =>
    simp only [List.cons_append, find?]
    split
    next => simp
    next => exact ih

theorem declare_append (s s' : Scopes α) (x : String) (a : α) (hs : s ≠ []) :
    declare (s ++ s') x a = s.declare x a ++ s' := by
  cases s with
  | nil => exact absurd rfl hs
  | cons t s => rfl

theorem declare_ne_nil (s : Scopes α) (x : String) (a : α) (hs : s ≠ []) : s.declare x a ≠ [] := by
  cases s with
  | nil => exact absurd rfl hs
  | cons t s => nofun

theorem find?_declare_self (hs : s ≠ []) : (s.declare x a).find? x = some a := by
  cases s with
  | nil => exact absurd rfl hs
  | cons t s => simp [declare, find?]

theorem find?_declare_of_ne {y : String} (h : y ≠ x) : (s.declare x a).find? y = s.find? y := by
  cases s with
  | nil => rfl
  | cons t s => simp only [declare, find?, Table.get?_put_of_ne t a h]

theorem declaredHere_declare (hs : s ≠ []) : (s.declare x a).declaredHere x = true := by
  cases s with
  | nil => exact absurd rfl hs
  | cons t s => simp [declare, declaredHere, Table.has]

theorem depth_declare : (s.declare x a).depth = s.depth := by
  cases s <;> rfl

theorem pop_declare : (s.declare x a).pop = s.pop := by
  cases s <;> rfl

/-- The scopes that have been opened above those of `base` agree with `e`; there is at least one. -/
def RelAbove (base : Scopes α) (R : α → β → Prop) (s : Scopes α) (e : Scopes β) : Prop :=
  ∃ inner, s = inner ++ base ∧ inner ≠ [] ∧ Rel R inner e

variable {base : Scopes α}

theorem RelAbove.mono {R' : α → β → Prop} (hR : ∀ a b, R a b → R' a b) (h : RelAbove base R s e) :
    RelAbove base R' s e := by
  obtain ⟨inner, hs, hne, hrel⟩ := h
  exact ⟨inner, hs, hne, hrel.mono hR⟩

theorem RelAbove.push (h : RelAbove base R s e) : RelAbove base R s.push e.push := by
  obtain ⟨inner, rfl, hne, hrel⟩ := h
  exact ⟨inner.push, rfl, nofun, hrel.push⟩

theorem RelAbove.declare (h : RelAbove base R s e) (hab : R a b) :
    RelAbove base R (s.declare x a) (e.declare x b) := by
  obtain ⟨inner, rfl, hne, hrel⟩ := h
  exact ⟨inner.declare x a, declare_append inner base x a hne, declare_ne_nil inner x a hne,
    hrel.declare hab⟩

theorem RelAbove.find? (h : RelAbove base R s e) (ha : s.find? x = some a)
    (hbase : base.find? x ≠ some a) : ∃ b, e.find? x = some b ∧ R a b := by
  obtain ⟨inner, rfl, hne, hrel⟩ := h
  rw [find?_append] at ha
  rcases Option.or_eq_some_iff.mp ha with ha | ⟨_, ha⟩
  · exact hrel.find? ha
  · exact absurd ha hbase

theorem RelAbove.declaredHere (h : RelAbove base R s e) (x : String) :
    s.declaredHere x = e.declaredHere x := by
  obtain ⟨inner, rfl, hne, hrel⟩ := h
  cases hrel with
  | nil => exact absurd rfl hne
  | cons ht _ => exact ht.has

theorem RelAbove.assign? (h : RelAbove base R s e) (ha : s.find? x = some a)
    (hbase : base.find? x ≠ some a) (hab : R a b) :
    ∃ e', e.assign? x b = some e' ∧ RelAbove base R s e' := by
  obtain ⟨inner, rfl, hne, hrel⟩ := h
  rw [find?_append] at ha
  rcases Option.or_eq_some_iff.mp ha with ha | ⟨_, ha⟩
  · obtain ⟨e', he', hrel'⟩ := hrel.assign? ha hab
    exact ⟨e', he', inner, rfl, hne, hrel'⟩
  · exact absurd ha hbase

theorem RelAbove.pop {R' : α → β → Prop} {s' : Scopes α} {e' : Scopes β}
    (h : RelAbove base R s e) (h' : RelAbove base R' s' e') (ht : s'.tail = s) :
    RelAbove base R' s e'.pop := by
  obtain ⟨inner, rfl, hne, _⟩ := h
  obtain ⟨inner', rfl, hne', hrel⟩ := h'
  cases hrel with
  | nil => exact absurd rfl hne'
  | @cons t u rest e' _ hrest =>
    obtain rfl : rest = inner := List.append_cancel_right ht
    exact ⟨rest, rfl, hne, hrest⟩

/-- The innermost scope has got more names, and those it had keep their meaning. -/
def Grows (s s' : Scopes α) : Prop :=
  ∃ t t' outer, s = t :: outer ∧ s' = t' :: outer ∧ ∀ x a, t.get? x = some a → t'.get? x = some a

theorem Grows.refl (hs : s ≠ []) : s.Grows s := by
  cases s with
  | nil => exact absurd rfl hs
  | cons t s => exact ⟨t, t, s, rfl, rfl, fun _ _ h => h⟩

theorem Grows.trans {s₁ s₂ s₃ : Scopes α} (h : s₁.Grows s₂) (h' : s₂.Grows s₃) : s₁.Grows s₃ := by
  obtain ⟨t, t', outer, rfl, rfl, hkeep⟩ := h
  obtain ⟨u, u', outer', heq, rfl, hkeep'⟩ := h'
  cases heq
  exact ⟨t, u', outer, rfl, rfl, fun x a hx => hkeep' x a (hkeep x a hx)⟩

theorem Grows.declare (hs : s ≠ []) (hx : s.declaredHere x = false) (a : α) :
    s.Grows (s.declare x a) := by
  cases s with
  | nil => exact absurd rfl hs
  | cons t s =>
    refine ⟨t, t.put x a, s, rfl, rfl, ?_⟩
    intro y b hy
    have hne : y ≠ x := by
      rintro rfl
      simp [Scopes.declaredHere, Table.has, hy] at hx
    rwa [Table.get?_put_of_ne _ _ hne]

theorem Grows.tail {s' : Scopes α} (h : s.Grows s') : s'.tail = s.tail := by
  obtain ⟨t, t', outer, rfl, rfl, _⟩ := h
  rfl

theorem Grows.find?_declare {s' : Scopes α} (h : (s.push.declare x a).Grows s') :
    s'.find? x = some a := by
  obtain ⟨t, t', outer, heq, rfl, hkeep⟩ := h
  cases heq
  simp [Scopes.find?, hkeep x a (Table.get?_put_self _ _ _)]

end Scopes

end RecordLang

import RecordLang.Table

/-! # Tables by their names

What a table holds under a name, and how putting an entry into it changes that. A name that is
taken keeps its place, and a new one comes last.
-/

namespace RecordLang.Table

variable {α : Type} {t : Table α} {x : String} {a : α}

theorem get?_put (t : Table α) (name other : String) (v : α) :
    (t.put name v).get? other = if other = name then some v else t.get? other := by
  split
  next h => rw [h, get?_put_self]
  next h => exact get?_put_of_ne t v h

theorem has_iff : t.has x = true ↔ x ∈ t.names := by
  induction t with
  | nil => simp [has, get?_nil, names]
  | cons e t ih =>
    obtain ⟨k, w⟩ := e
    unfold has at ih ⊢
    rw [get?_cons]
    by_cases h : x = k <;> simp [names, h]
    simpa [names] using ih

theorem put_append_of_not_has {u : Table α} (h : t.has x = false) :
    put (t ++ u) x a = t ++ put u x a := by
  induction t with
  | nil => rfl
  | cons e t ih =>
    obtain ⟨k, w⟩ := e
    unfold has at h ih
    rw [get?_cons] at h
    split at h
    next => cases h
    next hk => rw [List.cons_append, put, if_neg hk, ih h, List.cons_append]

theorem put_of_not_has (h : t.has x = false) : t.put x a = t ++ [(x, a)] := by
  rw [← t.append_nil, put_append_of_not_has h, t.append_nil]
  rfl

theorem names_put_of_has (h : t.has x = true) : (t.put x a).names = t.names := by
  induction t with
  | nil => cases h
  | cons e t ih =>
    obtain ⟨k, w⟩ := e
    unfold has at h ih
    rw [get?_cons] at h
    by_cases hk : x = k
    · simp [put, hk, names]
    · rw [if_neg hk] at h
      rw [put, if_neg hk]
      exact congrArg (k :: ·) (ih h)

theorem nodup_names_concat (ht : t.names.Nodup) (h : t.has x = false) :
    names (t ++ [(x, a)]) |>.Nodup := by
  have hx : x ∉ t.names := fun hx => Bool.false_ne_true (h.symm.trans (has_iff.mpr hx))
  rw [names, List.map_append]
  refine List.nodup_append.mpr ⟨ht, by simp, ?_⟩
  rintro y hy z hz rfl
  obtain rfl : y = x := by simpa using hz
  exact hx hy

theorem nodup_names_put (ht : t.names.Nodup) : (t.put x a).names.Nodup := by
  cases h : t.has x with
  | true => rwa [names_put_of_has h]
  | false =>
    rw [put_of_not_has h]
    exact nodup_names_concat ht h

theorem mem_put {e : String × α} (h : e ∈ t.put x a) : e ∈ t ∨ e = (x, a) := by
  induction t with
  | nil => exact .inr (List.mem_singleton.mp h)
  | cons e' t ih =>
    obtain ⟨k, w⟩ := e'
    unfold put at h
    split at h
    next hk =>
      subst hk
      rcases List.mem_cons.mp h with rfl | h
      · exact .inr rfl
      · exact .inl (.tail _ h)
    next =>
      rcases List.mem_cons.mp h with rfl | h
      · exact .inl (.head _)
      · exact (ih h).imp_left (.tail _)

theorem get?_eq_some_iff (ht : t.names.Nodup) : t.get? x = some a ↔ (x, a) ∈ t := by
  induction t with
  | nil => simp [get?_nil]
  | cons e t ih =>
    obtain ⟨k, w⟩ := e
    obtain ⟨hk, ht⟩ := List.nodup_cons.mp ht
    rw [get?_cons, List.mem_cons, Prod.mk.injEq]
    by_cases h : x = k
    · subst h
      have hx : (x, a) ∉ t := fun hmem => hk (List.mem_map.mpr ⟨_, hmem, rfl⟩)
      simp [hx, eq_comm]
    · simp [h, ih ht]

theorem get?_append (t u : Table α) (x : String) :
    get? (t ++ u) x = (t.get? x).or (u.get? x) := List.lookup_append

theorem get?_map_const {β : Type} (t : Table α) (b : β) (x : String) :
    get? (t.map fun (name, _) => (name, b)) x = (t.get? x).map fun _ => b := by
  induction t with
  | nil => rfl
  | cons e t ih =>
    obtain ⟨k, w⟩ := e
    rw [List.map_cons, get?_cons, get?_cons, ih]
    split <;> rfl

theorem has_append (t u : Table α) (x : String) : has (t ++ u) x = (t.has x || u.has x) := by
  simp only [has, get?_append, Option.isSome_or]

theorem has_singleton (x y : String) (a : α) : has [(x, a)] y = decide (y = x) := by
  rw [has, get?_cons]
  by_cases h : y = x <;> simp [h, get?_nil]

theorem get?_of_perm {u : Table α} (hp : t.Perm u) (ht : t.names.Nodup) (x : String) :
    u.get? x = t.get? x := by
  have hu : u.names.Nodup := (hp.map Prod.fst).nodup_iff.mp ht
  ext a
  rw [get?_eq_some_iff hu, get?_eq_some_iff ht, hp.mem_iff]

end RecordLang.Table

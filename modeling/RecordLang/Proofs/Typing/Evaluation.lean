import RecordLang.Proofs.Evaluation.Run
import RecordLang.Proofs.Scopes
import RecordLang.Proofs.Typing.Values

/-! # Sound evaluations

In a heap where every object has the fields of its record, with values of their types, a sound
evaluation does not get stuck and fails for dynamic causes only. It leaves such a heap behind, in
which there may be more objects.
-/

namespace RecordLang

/-- Each object that has not been deleted has the fields of its record, with values of their
types. -/
structure HeapTyped (c : Catalog) (σ : List String) (h : Heap) : Prop where
  size : h.objects.size = σ.length
  objects : ∀ {n : Nat} {r : String} {t : Table Value}, σ[n]? = some r →
    h.objects[n]? = some (some t) →
    ∃ fields, c.fields? r = some fields ∧ fields.Rel (fun ty v => v.HasType σ ty) t

namespace HeapTyped

variable {c : Catalog} {σ : List String} {h : Heap} {n : Nat} {r : String}

theorem empty (c : Catalog) : HeapTyped c [] {} := ⟨rfl, nofun⟩

theorem fields (hh : HeapTyped c σ h) (hn : σ[n]? = some r) :
    (∃ t fields, h.fields (n + 1) = .ok t ∧ h.objects[n]? = some (some t) ∧
      c.fields? r = some fields ∧ fields.Rel (fun ty v => v.HasType σ ty) t) ∨
      h.fields (n + 1) = .error (.freedObject (n + 1)) := by
  have hlt : n < h.objects.size := hh.size ▸ (List.getElem?_eq_some_iff.mp hn).1
  unfold Heap.fields
  cases hcell : h.objects[n] with
  | none => simp [hlt, hcell]
  | some t =>
    have hget : h.objects[n]? = some (some t) := by simp [hlt, hcell]
    obtain ⟨fields, hf, hrel⟩ := hh.objects hn hget
    exact .inl ⟨t, fields, by simp [hlt, hcell], hget, hf, hrel⟩

theorem replace (hh : HeapTyped c σ h) {cell : Option (Table Value)}
    (hcell : ∀ t, cell = some t → ∀ s, σ[n]? = some s →
      ∃ fields, c.fields? s = some fields ∧ fields.Rel (fun ty v => v.HasType σ ty) t) :
    HeapTyped c σ (h.replace (n + 1) cell) := by
  refine ⟨by simp [Heap.replace, hh.size], ?_⟩
  intro m s t hs ht
  simp only [Heap.replace, Nat.add_sub_cancel, Array.getElem?_setIfInBounds] at ht
  split at ht
  next heq =>
    subst heq
    split at ht
    next => exact hcell t (Option.some.inj ht) s hs
    next => cases ht
  next => exact hh.objects hs ht

theorem alloc (hh : HeapTyped c σ h) {fields : Table Ty} (hf : c.fields? r = some fields) :
    HeapTyped c (σ ++ [r]) (h.alloc fields.names).2 := by
  have hext : σ <+: σ ++ [r] := List.prefix_append σ [r]
  have hnil : fields.Rel (fun ty v => Value.HasType (σ ++ [r]) v ty)
      (fields.names.map fun f => (f, Value.nil)) := by
    clear hf
    induction fields with
    | nil => exact .nil
    | cons e fields ih => exact .cons (.nil _) ih
  refine ⟨by simp [Heap.alloc, hh.size], ?_⟩
  intro m s t hs ht
  simp only [Heap.alloc, Array.getElem?_push] at ht
  split at ht
  next heq =>
    subst heq
    rw [hh.size, List.getElem?_append_right (Nat.le_refl _), Nat.sub_self] at hs
    obtain rfl := Option.some.inj hs
    obtain rfl := Option.some.inj (Option.some.inj ht)
    exact ⟨fields, hf, hnil⟩
  next hne =>
    have hlt : m < σ.length := hh.size ▸ (Array.getElem?_eq_some_iff.mp ht).1
    rw [List.getElem?_append_left hlt] at hs
    obtain ⟨fields', hf', hrel⟩ := hh.objects hs ht
    exact ⟨fields', hf', hrel.mono fun _ _ hv => hv.mono hext⟩

end HeapTyped

/-- An evaluation that has ended as types predict; `P` is asked of its result. -/
def Run.Sound {α : Type} (c : Catalog) (σ : List String) (P : List String → α → Prop) :
    Run α → Prop
  | .done a w => ∃ σ', σ <+: σ' ∧ HeapTyped c σ' w.heap ∧ P σ' a
  | .failed cause _ => cause.isDynamic = true
  | .stuck => False
  | .unfinished => True

namespace Eval

/-- An evaluation that ends as types predict in every world whose heap is typed. -/
def Sound {α : Type} (c : Catalog) (σ : List String) (x : Eval α) (P : List String → α → Prop) :
    Prop :=
  ∀ w, HeapTyped c σ w.heap → (x w).Sound c σ P

variable {α β : Type} {c : Catalog} {σ : List String} {P : List String → α → Prop}
  {Q : List String → β → Prop} {v : Value} {r field : String} {ty : Ty}

theorem Sound.pure {a : α} (h : P σ a) : Sound c σ (pure a) P :=
  fun _ hw => ⟨σ, List.prefix_refl σ, hw, h⟩

theorem Sound.bind {x : Eval α} {f : α → Eval β} (hx : Sound c σ x P)
    (hf : ∀ a σ', σ <+: σ' → P σ' a → Sound c σ' (f a) Q) : Sound c σ (x >>= f) Q := by
  intro w hw
  have h := hx w hw
  show (Eval.bind x f w).Sound c σ Q
  unfold Eval.bind
  cases hr : x w with
  | done a w' =>
    rw [hr] at h
    obtain ⟨σ', hσ, hw', hp⟩ := h
    have h' := hf a σ' hσ hp w' hw'
    simp only
    cases hr' : f a w' with
    | done b w'' =>
      rw [hr'] at h'
      obtain ⟨σ'', hσ', hw'', hq⟩ := h'
      exact ⟨σ'', hσ.trans hσ', hw'', hq⟩
    | failed cause w'' =>
      rw [hr'] at h'
      exact h'
    | stuck =>
      rw [hr'] at h'
      exact h'
    | unfinished => trivial
  | failed cause w' =>
    rw [hr] at h
    exact h
  | stuck =>
    rw [hr] at h
    exact h
  | unfinished => trivial

theorem Sound.imp {x : Eval α} {P' : List String → α → Prop} (hx : Sound c σ x P)
    (hP : ∀ σ' a w w', x w = .done a w' → P σ' a → P' σ' a) : Sound c σ x P' := by
  intro w hw
  have h := hx w hw
  cases hr : x w with
  | done a w' =>
    rw [hr] at h
    obtain ⟨σ', hσ, hw', hp⟩ := h
    exact ⟨σ', hσ, hw', hP σ' a w w' hr hp⟩
  | failed cause w' =>
    rw [hr] at h
    exact h
  | stuck =>
    rw [hr] at h
    exact h
  | unfinished => trivial

theorem Sound.lift {x : Except Cause Value} (h : Typed σ ty x) :
    Sound c σ (lift x) fun σ v => v.HasType σ ty := by
  cases x with
  | ok v => exact .pure h
  | error cause => exact fun _ _ => h

theorem Sound.known {o : Option α} {a : α} (ho : o = some a) (h : P σ a) :
    Sound c σ (known o) P := by
  subst ho
  exact .pure h

theorem Sound.truth (h : v.HasType σ .bool) : Sound c σ (truth v) fun _ _ => True := by
  cases h with
  | nil => exact fun _ _ => rfl
  | bool b => exact .pure trivial

theorem Sound.onObject {f : Nat → Eval β} (h : v.HasType σ (.record r))
    (hf : ∀ n, σ[n]? = some r → Sound c σ (f (n + 1)) Q) :
    Sound c σ (Eval.lift v.asObject >>= f) Q := by
  cases h with
  | nil => exact fun _ _ => rfl
  | @object n _ hn => exact hf n hn

theorem Sound.alloc {fields : Table Ty} (hf : c.fields? r = some fields) :
    Sound c σ (alloc fields.names) fun σ v => v.HasType σ (.record r) := by
  intro w hw
  refine ⟨σ ++ [r], List.prefix_append σ [r], hw.alloc hf, ?_⟩
  show Value.HasType _ (.object (w.heap.objects.size + 1)) _
  refine .object ?_
  rw [hw.size, List.getElem?_append_right (Nat.le_refl _), Nat.sub_self]
  rfl

theorem Sound.free (h : v.HasType σ (.record r)) : Sound c σ (free v) fun _ _ => True := by
  apply Sound.onObject h
  intro n hn w hw
  unfold Heap.free
  rcases hw.fields hn with ⟨t, _, hfields, _⟩ | hfreed
  · simp only [hfields]
    exact ⟨σ, List.prefix_refl σ, hw.replace nofun, trivial⟩
  · simp only [hfreed]
    rfl

theorem Sound.getField (h : v.HasType σ (.record r)) (hf : c.fieldType? r field = some ty) :
    Sound c σ (getField v field) fun σ u => u.HasType σ ty := by
  apply Sound.onObject h
  intro n hn w hw
  unfold Heap.getField
  rcases hw.fields hn with ⟨t, fields, hfields, _, hc, hrel⟩ | hfreed
  · have hty : fields.get? field = some ty := by
      simpa [Catalog.fieldType?, hc] using hf
    obtain ⟨u, hu, htyped⟩ := hrel.get? hty
    simp only [hfields, hu]
    exact ⟨σ, List.prefix_refl σ, hw, htyped⟩
  · simp only [hfreed]
    rfl

theorem Sound.setField {u : Value} (h : v.HasType σ (.record r))
    (hf : c.fieldType? r field = some ty) (hu : u.HasType σ ty) :
    Sound c σ (setField v field u) fun _ _ => True := by
  apply Sound.onObject h
  intro n hn w hw
  unfold Heap.setField
  rcases hw.fields hn with ⟨t, fields, hfields, _, hc, hrel⟩ | hfreed
  · have hty : fields.get? field = some ty := by
      simpa [Catalog.fieldType?, hc] using hf
    have hhas : t.has field = true := by
      rw [← hrel.has]
      simp [Table.has, hty]
    simp only [hfields, hhas, if_true]
    refine ⟨σ, List.prefix_refl σ, hw.replace ?_, trivial⟩
    intro t' ht' s hs
    obtain rfl := Option.some.inj ht'
    obtain rfl : r = s := Option.some.inj (hn.symm.trans hs)
    exact ⟨fields, hc, hrel.put_right hty hu⟩
  · simp only [hfreed]
    rfl

theorem Sound.write (v : Value) : Sound c σ (write v) fun _ _ => True := by
  intro w hw
  unfold Eval.write
  split
  · exact ⟨σ, List.prefix_refl σ, hw, trivial⟩
  · rfl

theorem Sound.read : Sound c σ read fun σ v => v.HasType σ .string := by
  intro w hw
  unfold Eval.read
  split
  · rfl
  · split
    · exact ⟨σ, List.prefix_refl σ, hw, .string _⟩
    · rfl

def Turn.Holds {τ : Type} (I : τ → Prop) (P : α → Prop) : Turn τ α → Prop
  | .again s => I s
  | .ended a => P a

theorem Sound.repeatFor {τ : Type} {turn : τ → Eval (Turn τ α)} {I : List String → τ → Prop}
    (hturn : ∀ σ' s, σ <+: σ' → I σ' s →
      Sound c σ' (turn s) fun σ => Turn.Holds (I σ) (P σ))
    (bound : Nat) {s : τ} (hs : I σ s) : Sound c σ (repeatFor turn bound s) P := by
  induction bound generalizing σ s with
  | zero => exact fun _ _ => trivial
  | succ bound ih =>
    apply (hturn σ s (List.prefix_refl σ) hs).bind
    intro t σ' hσ ht
    cases t with
    | ended a => exact .pure ht
    | again s' => exact ih (fun σ'' s'' hσ' => hturn σ'' s'' (hσ.trans hσ')) ht

end Eval

end RecordLang

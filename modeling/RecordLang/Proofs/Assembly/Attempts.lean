import Mathlib.Data.List.Induction
import RecordLang.Proofs.Assembly.Linking

/-! # Directives that cannot be followed

A label cannot be bound before it is made or a second time. Such a directive fails and is passed
over. Whatever row of directives has been attempted, the assembly holds the instructions and jumps
of all of them and the places that labels have got, and finishing it links each jump to the place of
its label.
-/

namespace RecordLang

def labelCount (ds : List Directive) : Nat :=
  ds.countP fun
    | .newLabel => true
    | _ => false

/-- The row has a directive to bind the label `l` behind the one that makes it. -/
def Binds (ds : List Directive) (l : Nat) : Prop :=
  ∃ before after, ds = before ++ Directive.bind l :: after ∧ l < labelCount before

/-- The first such directive stands behind `n` instructions. -/
def BindsAt (ds : List Directive) (l n : Nat) : Prop :=
  ∃ before after, ds = before ++ Directive.bind l :: after ∧
    (l < labelCount before ∧ ¬ Binds before l) ∧ codeSize before = n

def Assembly.attempt (a : Assembly) (d : Directive) : Assembly :=
  match a.apply d with
  | .ok a' => a'
  | .error _ => a

def attempted (ds : List Directive) : Assembly := ds.foldl Assembly.attempt .empty

theorem Directive.bound?_eq_some_iff {d : Directive} {l : Nat} :
    d.bound? = some l ↔ d = .bind l := by
  cases d <;> simp [bound?]

section Rows

variable {ds : List Directive} {d : Directive} {l n : Nat}

theorem attempted_concat (ds : List Directive) (d : Directive) :
    attempted (ds ++ [d]) = (attempted ds).attempt d := by
  simp [attempted]

theorem labelCount_concat (ds : List Directive) (d : Directive) :
    labelCount (ds ++ [d]) = labelCount ds + labelCount [d] := List.countP_append

theorem jumpsOf_append (base : Nat) (ds ds' : List Directive) :
    jumpsOf base (ds ++ ds') = jumpsOf base ds ++ jumpsOf (base + codeSize ds) ds' := by
  induction ds generalizing base with
  | nil => simp [jumpsOf]
  | cons d ds ih => simp [jumpsOf, ih, Nat.add_assoc]

theorem exists_split_concat {e : Directive} {P : List Directive → Prop} :
    (∃ before after, ds ++ [d] = before ++ e :: after ∧ P before) ↔
      (∃ before after, ds = before ++ e :: after ∧ P before) ∨ d = e ∧ P ds := by
  constructor
  · rintro ⟨before, after, h, hP⟩
    rcases List.eq_nil_or_concat after with rfl | ⟨after, y, rfl⟩
    · obtain ⟨rfl, hde⟩ := List.append_inj' h rfl
      exact .inr ⟨List.singleton_inj.mp hde, hP⟩
    · rw [List.concat_eq_append, ← List.cons_append, ← List.append_assoc] at h
      obtain ⟨rfl, _⟩ := List.append_inj' h rfl
      exact .inl ⟨before, after, rfl, hP⟩
  · rintro (⟨before, after, rfl, hP⟩ | ⟨rfl, hP⟩)
    · exact ⟨before, after ++ [d], by simp, hP⟩
    · exact ⟨ds, [], rfl, hP⟩

theorem binds_concat :
    Binds (ds ++ [d]) l ↔ Binds ds l ∨ d = .bind l ∧ l < labelCount ds :=
  exists_split_concat

theorem bindsAt_concat :
    BindsAt (ds ++ [d]) l n ↔
      BindsAt ds l n ∨ d = .bind l ∧ (l < labelCount ds ∧ ¬ Binds ds l) ∧ codeSize ds = n :=
  exists_split_concat

theorem binds_iff : Binds ds l ↔ ∃ n, BindsAt ds l n := by
  induction ds using List.reverseRecOn with
  | nil => simp [Binds, BindsAt]
  | append_singleton ds d ih =>
    simp only [binds_concat, bindsAt_concat, exists_or, ← ih]
    by_cases h : Binds ds l <;> simp [h]

end Rows

namespace Assembly

variable {a : Assembly} {ds : List Directive} {d : Directive} {l n : Nat} {e : CompileError}

theorem bind_eq_error_iff :
    a.bind l = .error e ↔
      a.labels.size ≤ l ∧ e = .unknownLabel l ∨
        (∃ q, a.place? l = some q) ∧ e = .labelRebound l := by
  rw [bind_eq]
  by_cases hl : l < a.labels.size
  · cases hplace : a.place? l <;> simp [hl, Nat.not_le_of_lt hl, eq_comm]
  · have hle := Nat.le_of_not_lt hl
    have hplace : a.place? l = none := by simp [place?, hle]
    simp [hl, hle, hplace, eq_comm]

theorem apply_eq_error (h : a.apply d = .error e) : ∃ l, d = .bind l ∧ a.bind l = .error e := by
  cases d with
  | bind l => exact ⟨l, rfl, h⟩
  | _ => cases h

theorem apply_labels_size {a' : Assembly} (h : a.apply d = .ok a') :
    a'.labels.size = a.labels.size + labelCount [d] := by
  cases d with
  | bind l =>
    obtain ⟨_, rfl⟩ := bind_eq_ok_iff.mp h
    simp [labelCount]
  | _ =>
    cases h
    simp [emit, newLabel, jumpTo, labelCount]

/-- The assembly holds what the row of directives says: all of its instructions and jumps, its
labels, and the places of those that it binds. -/
structure StandsFor (ds : List Directive) (a : Assembly) : Prop where
  code : a.code.toList = linked (fun _ => unresolved) ds
  jumps : a.jumps = jumpsOf 0 ds
  labels : a.labels.size = labelCount ds
  places : ∀ l n, a.place? l = some n ↔ BindsAt ds l n

namespace StandsFor

theorem here (h : StandsFor ds a) : a.here = codeSize ds := by
  simpa [Assembly.here] using congrArg List.length h.code

theorem exists_place_iff (h : StandsFor ds a) : (∃ n, a.place? l = some n) ↔ Binds ds l := by
  simp only [h.places, binds_iff]

theorem place?_eq_none_iff (h : StandsFor ds a) : a.place? l = none ↔ ¬ Binds ds l := by
  rw [← h.exists_place_iff, ← Option.isSome_iff_exists, Option.not_isSome_iff_eq_none]

theorem bind_eq_error_iff (h : StandsFor ds a) :
    a.bind l = .error e ↔
      labelCount ds ≤ l ∧ e = .unknownLabel l ∨ Binds ds l ∧ e = .labelRebound l := by
  rw [Assembly.bind_eq_error_iff, h.labels, h.exists_place_iff]

theorem attempt (h : StandsFor ds a) (d : Directive) : StandsFor (ds ++ [d]) (a.attempt d) := by
  unfold Assembly.attempt
  cases happly : a.apply d with
  | ok a' =>
    constructor
    · rw [apply_code happly, h.code]
      simp
    · rw [apply_jumps happly, h.jumps, h.here, jumpsOf_append]
      simp [jumpsOf]
    · rw [apply_labels_size happly, h.labels, labelCount_concat]
    · intro l n
      rw [apply_place? happly, bindsAt_concat, ← h.places]
      by_cases hbound : d.bound? = some l
      · obtain ⟨hmade, hfree⟩ := apply_bound? happly hbound
        rw [h.labels] at hmade
        rw [if_pos hbound, hfree, h.here]
        have hd : d = .bind l := Directive.bound?_eq_some_iff.mp hbound
        simp [hd, hmade, h.place?_eq_none_iff.mp hfree]
      · have hd : d ≠ .bind l := mt Directive.bound?_eq_some_iff.mpr hbound
        simp [hbound, hd]
  | error e =>
    obtain ⟨k, rfl, hbind⟩ := apply_eq_error happly
    constructor
    · rw [h.code]
      simp [Directive.linked]
    · rw [h.jumps, jumpsOf_append]
      simp [jumpsOf, Directive.goal?]
    · rw [h.labels, labelCount_concat]
      rfl
    · intro l n
      rw [bindsAt_concat, ← h.places, iff_self_or]
      rintro ⟨hkl, ⟨hmade, hfree⟩, _⟩
      cases hkl
      rcases h.bind_eq_error_iff.mp hbind with ⟨hle, _⟩ | ⟨hbound, _⟩
      · omega
      · exact absurd hbound hfree

theorem find?_eq_none_iff (h : StandsFor ds a) :
    (goals ds).find? (fun l => (a.place? l).isNone) = none ↔ ∀ l ∈ goals ds, Binds ds l := by
  simp [List.find?_eq_none, h.place?_eq_none_iff]

theorem find?_eq_some_iff (h : StandsFor ds a) :
    (goals ds).find? (fun l => (a.place? l).isNone) = some l ↔
      ∃ earlier later, goals ds = earlier ++ l :: later ∧ (∀ k ∈ earlier, Binds ds k) ∧
        ¬ Binds ds l := by
  rw [List.find?_eq_some_iff_append]
  simp only [Option.isNone_iff_eq_none, h.place?_eq_none_iff, Bool.not_eq_true',
    Option.isNone_eq_false_iff, Option.isSome_iff_exists, h.exists_place_iff]
  constructor
  · rintro ⟨hl, earlier, later, hgoals, hearlier⟩
    exact ⟨earlier, later, hgoals, hearlier, hl⟩
  · rintro ⟨earlier, later, hgoals, hearlier, hl⟩
    exact ⟨hl, earlier, later, hgoals, hearlier⟩

theorem exists_finish_iff (h : StandsFor ds a) :
    (∃ code, a.finish = .ok code) ↔ ∀ l ∈ goals ds, Binds ds l := by
  rw [finish_eq h.code h.jumps, ← h.find?_eq_none_iff]
  cases (goals ds).find? fun l => (a.place? l).isNone <;> simp

theorem finish_eq_ok (h : StandsFor ds a) {code : Array Instruction} (hok : a.finish = .ok code) :
    ∃ place, (∀ l ∈ goals ds, BindsAt ds l (place l)) ∧ code.toList = linked place ds := by
  have hall := h.exists_finish_iff.mp ⟨code, hok⟩
  rw [finish_eq h.code h.jumps, h.find?_eq_none_iff.mpr hall] at hok
  cases hok
  refine ⟨fun l => (a.place? l).getD 0, ?_, rfl⟩
  intro l hl
  obtain ⟨n, hn⟩ := h.exists_place_iff.mpr (hall l hl)
  simp [← h.places, hn]

theorem finish_eq_error_iff (h : StandsFor ds a) :
    a.finish = .error e ↔
      ∃ earlier l later, goals ds = earlier ++ l :: later ∧ (∀ k ∈ earlier, Binds ds k) ∧
        ¬ Binds ds l ∧ e = .unboundLabel l := by
  rw [finish_eq h.code h.jumps]
  constructor
  · intro herror
    split at herror
    next l hl =>
      cases herror
      obtain ⟨earlier, later, hgoals, hearlier, hl⟩ := h.find?_eq_some_iff.mp hl
      exact ⟨earlier, l, later, hgoals, hearlier, hl, rfl⟩
    next => cases herror
  · rintro ⟨earlier, l, later, hgoals, hearlier, hl, rfl⟩
    rw [h.find?_eq_some_iff.mpr ⟨earlier, later, hgoals, hearlier, hl⟩]

end StandsFor

theorem standsFor_attempted (ds : List Directive) : StandsFor ds (attempted ds) := by
  induction ds using List.reverseRecOn with
  | nil =>
    constructor
    · rfl
    · rfl
    · rfl
    · intro l n
      simp [attempted, empty, place?, BindsAt]
  | append_singleton ds d ih =>
    rw [attempted_concat]
    exact ih.attempt d

end Assembly

open Assembly

/-- Binding a label fails exactly if it has not been made or is bound already, and then changes
nothing. Code can be finished exactly if all labels that jumps name are bound, and the first jump to
another one is named otherwise. Finished code has one instruction for each one emitted and for each
jump, in order, those emitted as they were, and each jump goes to the index where its label was
bound. -/
theorem code_is_linked_whatever_has_failed (ds : List Directive) :
    (∀ l e, (attempted ds).bind l = .error e ↔
      labelCount ds ≤ l ∧ e = .unknownLabel l ∨ Binds ds l ∧ e = .labelRebound l) ∧
    (∀ l e, (attempted ds).bind l = .error e →
      attempted (ds ++ [Directive.bind l]) = attempted ds) ∧
    ((∃ code, (attempted ds).finish = .ok code) ↔ ∀ l ∈ goals ds, Binds ds l) ∧
    (∀ code, (attempted ds).finish = .ok code →
      ∃ place, (∀ l ∈ goals ds, BindsAt ds l (place l)) ∧ code.toList = linked place ds) ∧
    (∀ e, (attempted ds).finish = .error e ↔
      ∃ earlier l later, goals ds = earlier ++ l :: later ∧ (∀ k ∈ earlier, Binds ds k) ∧
        ¬ Binds ds l ∧ e = .unboundLabel l) ∧
    ∀ index found, (attempted ds).finish ≠ .error (.strayJump index found) := by
  have h := standsFor_attempted ds
  refine ⟨fun l e => h.bind_eq_error_iff, ?_, h.exists_finish_iff, fun code => h.finish_eq_ok,
    fun e => h.finish_eq_error_iff, ?_⟩
  · intro l e hbind
    rw [attempted_concat, attempt, apply, hbind]
  · intro index found hstray
    obtain ⟨_, _, _, _, _, _, heq⟩ := h.finish_eq_error_iff.mp hstray
    cases heq

-- the label is bound too early, then in time, then once more
example : (attempted [.jump 0, .bind 0, .newLabel, .bind 0, .emit .nop, .bind 0]).finish =
    .ok #[.jump 1, .nop] := rfl

end RecordLang

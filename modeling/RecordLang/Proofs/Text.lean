import Mathlib.Data.List.TakeWhile
import RecordLang.Text.Blank
import RecordLang.Text.Letter

/-! # Classes of characters

No character is of two of the classes that separate tokens. What is left of a text without the
blanks around it is the part of it that neither begins nor ends with a blank.
-/

namespace RecordLang.Text

def areApart (rs ss : List (Nat × Nat)) : Bool :=
  rs.all fun r => ss.all fun s => r.2 < s.1 || s.2 < r.1

theorem exists_range {n : Nat} {rs : List (Nat × Nat)} (h : inRanges n rs = true) :
    ∃ r ∈ rs, r.1 ≤ n ∧ n ≤ r.2 := by
  induction rs with
  | nil => cases h
  | cons r rs ih =>
    rw [inRanges] at h
    split at h
    next => cases h
    next hlow =>
      split at h
      next hhigh => exact ⟨r, .head _, Nat.le_of_not_lt hlow, hhigh⟩
      next =>
        obtain ⟨s, hs, hn⟩ := ih h
        exact ⟨s, .tail _ hs, hn⟩

theorem inRanges_of_areApart {n : Nat} {rs ss : List (Nat × Nat)} (h : areApart rs ss = true)
    (hn : inRanges n rs = true) : inRanges n ss = false := by
  rw [Bool.eq_false_iff]
  intro hn'
  obtain ⟨r, hr, hlow, hhigh⟩ := exists_range hn
  obtain ⟨s, hs, hlow', hhigh'⟩ := exists_range hn'
  have hapart := List.all_eq_true.mp (List.all_eq_true.mp h r hr) s hs
  simp only [Bool.or_eq_true, decide_eq_true_eq] at hapart
  omega

theorem isBlank_of_isLetter {c : Char} (h : isLetter c = true) : isBlank c = false :=
  inRanges_of_areApart (by decide +kernel) h

theorem isDigit_eq_inRanges (c : Char) : isDigit c = inRanges c.toNat [(48, 57)] := by
  simp only [isDigit, inRanges, Char.le_def, UInt32.le_iff_toNat_le]
  change (decide (48 ≤ c.toNat) && decide (c.toNat ≤ 57)) = _
  by_cases hlow : c.toNat < 48
  · simp [hlow, Nat.not_le_of_lt hlow]
  · simp [hlow, Nat.le_of_not_lt hlow]

theorem isBlank_of_isDigit {c : Char} (h : isDigit c = true) : isBlank c = false := by
  rw [isDigit_eq_inRanges] at h
  exact inRanges_of_areApart (by decide) h

theorem isDigit_of_isLetter {c : Char} (h : isLetter c = true) : isDigit c = false := by
  rw [isDigit_eq_inRanges]
  exact inRanges_of_areApart (by decide +kernel) h

/-! ## Blanks around a text -/

/-- A part of a text with blanks only around it, and none at its own ends. -/
structure Trimmed (cs core : List Char) : Prop where
  between_blanks : ∃ before after, cs = before ++ core ++ after ∧
    (∀ c ∈ before, isBlank c = true) ∧ ∀ c ∈ after, isBlank c = true
  head_not_blank : ∀ c ∈ core.head?, isBlank c = false
  last_not_blank : ∀ c ∈ core.getLast?, isBlank c = false

theorem isBlank_of_mem_head?_dropWhile {c : Char} {cs : List Char}
    (h : c ∈ (cs.dropWhile isBlank).head?) : isBlank c = false := by
  have hstop := List.head?_dropWhile_not isBlank cs
  rw [h] at hstop
  exact hstop

theorem dropWhile_isBlank_append {bs cs : List Char} (hbs : ∀ c ∈ bs, isBlank c = true)
    (hcs : ∀ c ∈ cs.head?, isBlank c = false) : (bs ++ cs).dropWhile isBlank = cs := by
  rw [List.dropWhile_append_of_pos hbs]
  cases cs with
  | nil => rfl
  | cons c cs => exact List.dropWhile_cons_of_neg (Bool.eq_false_iff.mp (hcs c rfl))

theorem trimmed_trimBlanks (cs : List Char) : Trimmed cs (trimBlanks cs) := by
  have hfront : cs.takeWhile isBlank ++ cs.dropWhile isBlank = cs :=
    List.takeWhile_append_dropWhile
  generalize hrest : cs.dropWhile isBlank = rest at hfront
  have hback : trimBlanks cs ++ (rest.reverse.takeWhile isBlank).reverse = rest := by
    rw [trimBlanks, hrest, ← List.reverse_append, List.takeWhile_append_dropWhile,
      List.reverse_reverse]
  constructor
  · have hcs : cs = cs.takeWhile isBlank ++ trimBlanks cs ++
        (rest.reverse.takeWhile isBlank).reverse := by
      rw [List.append_assoc, hback, hfront]
    exact ⟨_, _, hcs, fun _ => List.mem_takeWhile_imp,
      fun _ hc => List.mem_takeWhile_imp (List.mem_reverse.mp hc)⟩
  · intro c hc
    have hhead : c ∈ rest.head? := by
      rw [← hback, List.head?_append, Option.mem_def.mp hc]
      rfl
    rw [← hrest] at hhead
    exact isBlank_of_mem_head?_dropWhile hhead
  · intro c hc
    rw [trimBlanks, List.getLast?_reverse] at hc
    exact isBlank_of_mem_head?_dropWhile hc

theorem trimBlanks_of_trimmed {cs core : List Char} (h : Trimmed cs core) :
    trimBlanks cs = core := by
  obtain ⟨before, after, rfl, hbefore, hafter⟩ := h.between_blanks
  cases core with
  | nil =>
    -- A text of blanks alone is dropped from its front.
    have hall : ∀ c ∈ before ++ [] ++ after, isBlank c = true := by
      intro c hc
      rw [List.append_nil, List.mem_append] at hc
      exact hc.elim (hbefore c) (hafter c)
    rw [trimBlanks, List.dropWhile_eq_nil_iff.mpr hall]
    rfl
  | cons d ds =>
    have hhead : ∀ c ∈ (d :: ds ++ after).head?, isBlank c = false := h.head_not_blank
    have hlast : ∀ c ∈ (d :: ds).reverse.head?, isBlank c = false := by
      rw [List.head?_reverse]
      exact h.last_not_blank
    have hafter' : ∀ c ∈ after.reverse, isBlank c = true :=
      fun c hc => hafter c (List.mem_reverse.mp hc)
    rw [trimBlanks, List.append_assoc, dropWhile_isBlank_append hbefore hhead,
      List.reverse_append, dropWhile_isBlank_append hafter' hlast, List.reverse_reverse]

theorem trimmed_iff {cs core : List Char} : Trimmed cs core ↔ trimBlanks cs = core := by
  constructor
  · exact trimBlanks_of_trimmed
  · rintro rfl
    exact trimmed_trimBlanks cs

theorem trimBlanks_eq_self {cs : List Char} (h : ∀ c ∈ cs, isBlank c = false) :
    trimBlanks cs = cs := by
  apply trimBlanks_of_trimmed
  constructor
  · exact ⟨[], [], by simp⟩
  · intro c hc
    exact h c (List.mem_of_mem_head? hc)
  · intro c hc
    exact h c (List.mem_of_mem_getLast? hc)

end RecordLang.Text

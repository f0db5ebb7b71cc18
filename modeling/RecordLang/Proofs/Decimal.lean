import Mathlib.Data.Nat.Digits.Defs
import RecordLang.Decimal.Integer

/-! # Reading written numbers

The written form of a number is a row of digits without a needless zero in front. What is read as a
word is a numeral that denotes it: that the words are read digit by digit makes no difference,
since a number whose next digits are still to come is nearer to zero than the whole.
-/

namespace RecordLang.Decimal

open Text

theorem isDigit_eq (c : Char) : isDigit c = c.isDigit := rfl

theorem isDigit_of_mem_toDigits {n : Nat} {c : Char} (h : c ∈ Nat.toDigits 10 n) :
    isDigit c = true := by
  rw [isDigit_eq]
  exact Nat.isDigit_of_mem_toDigits (by decide) (by decide) h

theorem digitsValue_toDigits (n : Nat) : digitsValue (Nat.toDigits 10 n) = n :=
  Nat.ofDigitChars_ten_toDigits

theorem head?_toDigits {n : Nat} (hn : 0 < n) : (Nat.toDigits 10 n).head? ≠ some '0' := by
  induction n using Nat.strongRecOn with
  | ind n ih =>
    rw [Nat.toDigits_eq_if (by decide)]
    split
    next hlt =>
      have hdigit : ∀ k < 10, 0 < k → Nat.digitChar k ≠ '0' := by decide
      simpa using hdigit n hlt hn
    next hge =>
      have hsmaller := ih (n / 10) (by omega) (by omega)
      obtain ⟨c, cs, hcs⟩ : ∃ c cs, Nat.toDigits 10 (n / 10) = c :: cs :=
        List.exists_cons_of_ne_nil Nat.toDigits_ne_nil
      rw [hcs] at hsmaller ⊢
      exact hsmaller

/-! ## Numerals -/

/-- One or more digits, and the number that they denote in base ten. -/
structure Numeral (ds : List Char) (n : Nat) : Prop where
  ne_nil : ds ≠ []
  isDigit_of_mem : ∀ c ∈ ds, isDigit c = true
  value : n = Nat.ofDigits 10 (ds.map digitValue).reverse

/-- A numeral with a sign in front or none, and the number that it denotes. -/
inductive Denotes : List Char → Int → Prop
  | unsigned {ds : List Char} {n : Nat} (h : Numeral ds n) : Denotes ds n
  | plus {ds : List Char} {n : Nat} (h : Numeral ds n) : Denotes ('+' :: ds) n
  | minus {ds : List Char} {n : Nat} (h : Numeral ds n) : Denotes ('-' :: ds) (-n)

theorem digitsValue_eq (cs : List Char) :
    digitsValue cs = Nat.ofDigits 10 (cs.map digitValue).reverse := by
  rw [Nat.ofDigits_eq_foldr, List.foldr_reverse, List.foldl_map, digitsValue]
  simp only [Nat.cast_id, Nat.add_comm]

theorem numeral_iff {ds : List Char} {n : Nat} :
    Numeral ds n ↔ ds ≠ [] ∧ (∀ c ∈ ds, isDigit c = true) ∧ n = digitsValue ds := by
  rw [digitsValue_eq]
  constructor
  · intro h
    exact ⟨h.ne_nil, h.isDigit_of_mem, h.value⟩
  · rintro ⟨hne, hall, hn⟩
    exact ⟨hne, hall, hn⟩

theorem numeral_toDigits (n : Nat) : Numeral (Nat.toDigits 10 n) n := by
  rw [numeral_iff]
  exact ⟨Nat.toDigits_ne_nil, fun _ => isDigit_of_mem_toDigits, (digitsValue_toDigits n).symm⟩

theorem Numeral.isDigit_head {c : Char} {cs : List Char} {n : Nat} (h : Numeral (c :: cs) n) :
    isDigit c = true :=
  h.isDigit_of_mem c List.mem_cons_self

theorem denotes_plus_iff {ds : List Char} {k : Int} :
    Denotes ('+' :: ds) k ↔ ∃ n : Nat, Numeral ds n ∧ k = n := by
  constructor
  · intro h
    cases h with
    | unsigned h => exact absurd h.isDigit_head (by decide)
    | plus h => exact ⟨_, h, rfl⟩
  · rintro ⟨n, h, rfl⟩
    exact .plus h

theorem denotes_minus_iff {ds : List Char} {k : Int} :
    Denotes ('-' :: ds) k ↔ ∃ n : Nat, Numeral ds n ∧ k = -n := by
  constructor
  · intro h
    cases h with
    | unsigned h => exact absurd h.isDigit_head (by decide)
    | minus h => exact ⟨_, h, rfl⟩
  · rintro ⟨n, h, rfl⟩
    exact .minus h

theorem denotes_unsigned_iff {ds : List Char} {k : Int} (hminus : ∀ cs, ds ≠ '-' :: cs)
    (hplus : ∀ cs, ds ≠ '+' :: cs) : Denotes ds k ↔ ∃ n : Nat, Numeral ds n ∧ k = n := by
  constructor
  · intro h
    cases h with
    | unsigned h => exact ⟨_, h, rfl⟩
    | plus h => exact absurd rfl (hplus _)
    | minus h => exact absurd rfl (hminus _)
  · rintro ⟨n, h, rfl⟩
    exact .unsigned h

theorem denotes_intText (k : Int) : Denotes (intText k).toList k := by
  have h := numeral_toDigits k.natAbs
  by_cases hk : k < 0
  · have hvalue : -(k.natAbs : Int) = k := by omega
    have hminus := Denotes.minus h
    rw [hvalue] at hminus
    simpa [intText, hk, natText] using hminus
  · have hvalue : (k.natAbs : Int) = k := by omega
    have hunsigned := Denotes.unsigned h
    rw [hvalue] at hunsigned
    simpa [intText, hk, natText] using hunsigned

/-! ## Words -/

theorem exists_toInt_eq_iff {k : Int} :
    (∃ w : Int64, w.toInt = k) ↔ Int64.minValue.toInt ≤ k ∧ k ≤ Int64.maxValue.toInt := by
  constructor
  · rintro ⟨w, rfl⟩
    exact ⟨w.minValue_le_toInt, w.toInt_le⟩
  · rw [Int64.toInt_minValue, Int64.toInt_maxValue]
    rintro ⟨hlow, hhigh⟩
    exact ⟨Int64.ofInt k, Int64.toInt_ofInt_of_le hlow (by omega)⟩

theorem word?_eq_some_iff {k : Int} {w : Int64} : word? k = some w ↔ w.toInt = k := by
  rw [word?]
  constructor
  · intro h
    split at h
    next hin =>
      obtain ⟨v, rfl⟩ := exists_toInt_eq_iff.mpr hin
      rw [Int64.ofInt_toInt] at h
      rw [Option.some.inj h]
    next => cases h
  · rintro rfl
    rw [if_pos (exists_toInt_eq_iff.mp ⟨w, rfl⟩), Int64.ofInt_toInt]

/-- A number below zero or not, by its distance from zero. -/
def signed (negative : Bool) (n : Nat) : Int := if negative then -n else n

/-- Between zero and a word there are words only. -/
theorem exists_toInt_eq_signed {negative : Bool} {a b : Nat} {v : Int64} (hab : a ≤ b)
    (hv : v.toInt = signed negative b) : ∃ w : Int64, w.toInt = signed negative a := by
  have hlow := v.minValue_le_toInt
  have hhigh := v.toInt_le
  rw [exists_toInt_eq_iff]
  rw [hv, Int64.toInt_minValue] at hlow
  rw [hv, Int64.toInt_maxValue] at hhigh
  rw [Int64.toInt_minValue, Int64.toInt_maxValue]
  unfold signed at *
  cases negative
  · simp only [Bool.false_eq_true, if_false] at *
    omega
  · simp only [if_true] at *
    omega

theorem appendDigit?_eq_some_iff {negative : Bool} {n v : Int64} {a : Nat} {c : Char}
    (hn : n.toInt = signed negative a) :
    appendDigit? negative n c = some v ↔
      isDigit c = true ∧ v.toInt = signed negative (10 * a + digitValue c) := by
  have hshift : 10 * n.toInt = signed negative (10 * a) := by
    rw [hn]
    cases negative <;> simp [signed]
  have hadd : (if negative then signed negative (10 * a) - digitValue c
      else signed negative (10 * a) + digitValue c) =
        signed negative (10 * a + digitValue c) := by
    cases negative
    · simp [signed]
    · simp only [signed, if_true]
      omega
  rw [appendDigit?]
  split
  next hc =>
    simp only [Option.bind_eq_bind, Option.bind_eq_some_iff, word?_eq_some_iff, hshift, hc,
      true_and]
    constructor
    · rintro ⟨w, hw, hv⟩
      rw [hv, hw, hadd]
    · intro hv
      obtain ⟨w, hw⟩ := exists_toInt_eq_signed (Nat.le_add_right _ _) hv
      exact ⟨w, hw, by rw [hv, hw, hadd]⟩
  next hc => simp [hc]

theorem le_ofDigitChars (cs : List Char) (a : Nat) : a ≤ Nat.ofDigitChars 10 cs a := by
  induction cs generalizing a with
  | nil => exact Nat.le_refl a
  | cons c cs ih =>
    rw [Nat.ofDigitChars_cons]
    exact Nat.le_trans (by omega) (ih _)

theorem foldlM_appendDigit?_eq_some_iff {negative : Bool} {cs : List Char} {n v : Int64} {a : Nat}
    (hn : n.toInt = signed negative a) :
    cs.foldlM (appendDigit? negative) n = some v ↔
      (∀ c ∈ cs, isDigit c = true) ∧ v.toInt = signed negative (Nat.ofDigitChars 10 cs a) := by
  induction cs generalizing n a with
  | nil =>
    simp only [List.foldlM_nil, Option.pure_def, Option.some.injEq, List.not_mem_nil, false_imp_iff,
      implies_true, true_and, Nat.ofDigitChars_nil]
    rw [← hn, Int64.toInt_inj]
    exact eq_comm
  | cons c cs ih =>
    rw [List.foldlM_cons, Option.bind_eq_bind, Option.bind_eq_some_iff, Nat.ofDigitChars_cons,
      List.forall_mem_cons]
    constructor
    · rintro ⟨w, hw, hrest⟩
      obtain ⟨hc, hvalue⟩ := (appendDigit?_eq_some_iff hn).mp hw
      obtain ⟨hcs, hv⟩ := (ih hvalue).mp hrest
      exact ⟨⟨hc, hcs⟩, hv⟩
    · rintro ⟨⟨hc, hcs⟩, hv⟩
      -- The number up to this digit is a word since the whole is one.
      obtain ⟨w, hw⟩ := exists_toInt_eq_signed (le_ofDigitChars cs _) hv
      exact ⟨w, (appendDigit?_eq_some_iff hn).mpr ⟨hc, hw⟩, (ih hw).mpr ⟨hcs, hv⟩⟩

theorem readMagnitude64?_eq_some_iff {negative : Bool} {cs : List Char} {v : Int64} :
    readMagnitude64? negative cs = some v ↔ ∃ n, Numeral cs n ∧ v.toInt = signed negative n := by
  have hzero : (0 : Int64).toInt = signed negative 0 := by cases negative <;> rfl
  simp only [numeral_iff]
  rw [readMagnitude64?]
  split
  next hnil => simp [List.isEmpty_iff.mp hnil]
  next hne =>
    rw [List.isEmpty_iff] at hne
    rw [foldlM_appendDigit?_eq_some_iff hzero]
    constructor
    · rintro ⟨hcs, hv⟩
      exact ⟨_, ⟨hne, hcs, rfl⟩, hv⟩
    · rintro ⟨_, ⟨-, hcs, rfl⟩, hv⟩
      exact ⟨hcs, hv⟩

theorem readInt64?_eq_some_iff {cs : List Char} {v : Int64} :
    readInt64? cs = some v ↔ Denotes cs v.toInt := by
  unfold readInt64?
  split
  next => rw [readMagnitude64?_eq_some_iff, denotes_minus_iff]; rfl
  next => rw [readMagnitude64?_eq_some_iff, denotes_plus_iff]; rfl
  next hminus hplus =>
    rw [readMagnitude64?_eq_some_iff, denotes_unsigned_iff hminus hplus]
    rfl

example : readInt64? "-9223372036854775808".toList = some Int64.minValue ∧
    readInt64? "+9223372036854775808".toList = none := by
  decide

theorem readInt64?_toDigits {n : Int64} (hn : 0 ≤ n) :
    readInt64? (Nat.toDigits 10 n.toInt.natAbs) = some n := by
  rw [Int64.le_iff_toInt_le] at hn
  have h := Denotes.unsigned (numeral_toDigits n.toInt.natAbs)
  rw [Int.natAbs_of_nonneg hn] at h
  exact readInt64?_eq_some_iff.mpr h

end RecordLang.Decimal

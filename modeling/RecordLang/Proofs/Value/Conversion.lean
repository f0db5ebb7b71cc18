import RecordLang.Machine.Step
import RecordLang.Proofs.Decimal
import RecordLang.Proofs.Text

/-! # Whole numbers and their texts

The text of a whole number is converted back to the number. Of all texts, those are converted that
are a numeral in the range of words between blanks, and each of them to what the numeral denotes.
-/

namespace RecordLang

namespace Decimal

theorem Denotes.isBlank_of_mem {cs : List Char} {k : Int} (h : Denotes cs k) :
    ∀ c ∈ cs, Text.isBlank c = false := by
  have hdigits : ∀ {ds : List Char} {n : Nat}, Numeral ds n → ∀ c ∈ ds, Text.isBlank c = false :=
    fun h c hc => Text.isBlank_of_isDigit (h.isDigit_of_mem c hc)
  cases h with
  | unsigned h => exact hdigits h
  | plus h => exact List.forall_mem_cons.mpr ⟨by decide, hdigits h⟩
  | minus h => exact List.forall_mem_cons.mpr ⟨by decide, hdigits h⟩

end Decimal

open Decimal Text

namespace Value

/-- Without the blanks around it, the text is a numeral that denotes the word. -/
def Reads (s : String) (n : Int64) : Prop :=
  ∃ core, Trimmed s.toList core ∧ Denotes core n.toInt

theorem reads_iff {s : String} {n : Int64} :
    Reads s n ↔ readInt64? (trimBlanks s.toList) = some n := by
  rw [readInt64?_eq_some_iff]
  constructor
  · rintro ⟨core, hcore, hn⟩
    rw [trimmed_iff.mp hcore]
    exact hn
  · intro hn
    exact ⟨_, trimmed_trimBlanks _, hn⟩

theorem reads_text (n : Int64) : Reads (Value.int n).text n := by
  have h : Denotes (Value.int n).text.toList n.toInt := denotes_intText n.toInt
  exact ⟨_, trimmed_iff.mpr (trimBlanks_eq_self h.isBlank_of_mem), h⟩

theorem toInt_of_reads {s : String} {n : Int64} (h : Reads s n) :
    (Value.string s).toInt = .ok (.int n) := by
  rw [toInt, reads_iff.mp h]

theorem toInt_of_not_reads {s : String} (h : ∀ n, ¬ Reads s n) :
    (Value.string s).toInt = .error (.badConversion (.notInt s)) := by
  have hnone : readInt64? (trimBlanks s.toList) = none := by
    rw [Option.eq_none_iff_forall_not_mem]
    intro n hn
    exact h n (reads_iff.mpr hn)
  rw [toInt, hnone]

end Value

namespace Machine

theorem unary_push (m : Machine) (f : Frame) (v : Value) (op : Value → Except Cause Value) :
    m.unary (f.push v) op = m.result f (op v) := rfl

theorem goOn_push_inj {m : Machine} {f : Frame} {v w : Value} :
    m.goOn (f.push v) = m.goOn (f.push w) ↔ v = w := by
  simp [goOn, withFrame, Frame.push]

/-- A whole number that is converted to a text and back is the number again. A text is converted
to a whole number exactly if it reads as that number, and any text that reads as none leads to the
fault that says so. -/
theorem conversion_of_whole_numbers_is_exact (m : Machine) (f : Frame) :
    (∀ n : Int64, ∃ text : String,
      m.exec (f.push (.int n)) .toText = m.goOn (f.push (.string text)) ∧
      m.exec (f.push (.string text)) .toInt = m.goOn (f.push (.int n))) ∧
    ∀ s : String,
      (∀ n : Int64, m.exec (f.push (.string s)) .toInt = m.goOn (f.push (.int n)) ↔
        Value.Reads s n) ∧
      ((∀ n : Int64, ¬ Value.Reads s n) →
        m.exec (f.push (.string s)) .toInt = m.fail f (.badConversion (.notInt s))) := by
  have hread : ∀ {s : String} {n : Int64}, Value.Reads s n →
      m.exec (f.push (.string s)) .toInt = m.goOn (f.push (.int n)) := by
    intro s n h
    rw [exec, unary_push, Value.toInt_of_reads h]
    rfl
  have hunread : ∀ {s : String}, (∀ n, ¬ Value.Reads s n) →
      m.exec (f.push (.string s)) .toInt = m.fail f (.badConversion (.notInt s)) := by
    intro s h
    rw [exec, unary_push, Value.toInt_of_not_reads h]
    rfl
  constructor
  · intro n
    exact ⟨(Value.int n).text, rfl, hread (Value.reads_text n)⟩
  · intro s
    constructor
    · intro n
      constructor
      · intro h
        by_cases hs : ∃ k, Value.Reads s k
        · obtain ⟨k, hk⟩ := hs
          rw [hread hk, goOn_push_inj] at h
          cases h
          exact hk
        · rw [hunread (not_exists.mp hs)] at h
          cases h
      · exact hread
    · exact hunread

end Machine

end RecordLang

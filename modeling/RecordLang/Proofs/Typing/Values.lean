import RecordLang.Typing.Expr
import RecordLang.Value.Operation

/-! # Types of values

A value has the type that its kind says; nil has every type, and a string may stand for a character.
What operations yield has the type that checking predicts, or the operation fails for a reason that
types do not rule out.
-/

namespace RecordLang

/-- Causes that types do not rule out: they hang on values, on limits or on the streams. -/
def Cause.isDynamic : Cause → Bool
  | .nilReference | .divisionByZero | .badConversion _ | .indexOutOfRange _ _ | .freedObject _
  | .callDepthExceeded _ | .stepLimitExceeded _ | .io _ => true
  | _ => false

namespace Value

/-- The types of a value; `σ` tells the records of the objects, in the order of their numbers. -/
inductive HasType (σ : List String) : Value → Ty → Prop where
  | nil (ty : Ty) : HasType σ .nil ty
  | int (n : Int64) : HasType σ (.int n) .int
  | double (x : Double) : HasType σ (.double x) .double
  | bool (b : Bool) : HasType σ (.bool b) .bool
  | char (s : String) : HasType σ (.string s) .char
  | string (s : String) : HasType σ (.string s) .string
  | object {n : Nat} {r : String} (h : σ[n]? = some r) : HasType σ (.object (n + 1)) (.record r)

variable {σ σ' : List String} {v : Value} {ty : Ty}

theorem HasType.mono (h : v.HasType σ ty) (hσ : σ <+: σ') : v.HasType σ' ty := by
  cases h with
  | object h =>
    obtain ⟨more, rfl⟩ := hσ
    exact .object (List.getElem?_append_left (List.getElem?_eq_some_iff.mp h).1 ▸ h)
  | _ => constructor

theorem HasType.accepts {expected : Ty} (h : v.HasType σ ty) (ha : expected.accepts ty = true) :
    v.HasType σ expected := by
  simp only [Ty.accepts, Bool.or_eq_true, decide_eq_true_eq] at ha
  rcases ha with rfl | rfl
  · cases h
    exact .nil expected
  · exact h

end Value

/-- A computation that yields a value of a type or fails for a dynamic cause. -/
def Typed (σ : List String) (ty : Ty) : Except Cause Value → Prop
  | .ok v => v.HasType σ ty
  | .error c => c.isDynamic = true

namespace Ty

theorem isNumeric_iff {ty : Ty} : ty.isNumeric = true ↔ ty = .int ∨ ty = .double := by
  cases ty <;> simp [isNumeric]

theorem isOrdered_iff {ty : Ty} :
    ty.isOrdered = true ↔ ty = .int ∨ ty = .double ∨ ty = .char ∨ ty = .string := by
  cases ty <;> simp [isOrdered]

def isText : Ty → Bool
  | .char | .string => true
  | _ => false

end Ty

section Operations

variable {σ : List String} {v : Value} {ty : Ty}

namespace BinOp

variable {op : BinOp} {left right : Ty}

theorem type?_cases (h : op.type? left right = some ty) :
    ((op = .eq ∨ op = .ne) ∧ ty = .bool) ∨
      (op ≠ .eq ∧ op ≠ .ne ∧ ((left = .int ∧ right = .int) ∨ (left = .double ∧ right = .double) ∨
        (left = .bool ∧ right = .bool) ∨ (left.isText = true ∧ right.isText = true))) := by
  cases op with
  | eq | ne =>
    simp only [type?] at h
    split at h
    next =>
      cases h
      simp
    next => cases h
  | add =>
    unfold type? at h
    simp only at h
    split at h
    next => simp [Ty.isText]
    next => simp [Ty.isText]
    next => simp [Ty.isText]
    next =>
      simp only [Option.ite_none_right_eq_some, Bool.and_eq_true, decide_eq_true_eq,
        Ty.isNumeric_iff] at h
      obtain ⟨⟨rfl, rfl | rfl⟩, _⟩ := h <;> simp
  | sub | mul | div =>
    simp only [type?, Option.ite_none_right_eq_some, Bool.and_eq_true, decide_eq_true_eq,
      Ty.isNumeric_iff] at h
    obtain ⟨⟨rfl, rfl | rfl⟩, _⟩ := h <;> simp
  | mod | and | or =>
    simp only [type?, Option.ite_none_right_eq_some, Bool.and_eq_true, decide_eq_true_eq] at h
    obtain ⟨⟨rfl, rfl⟩, _⟩ := h
    simp
  | lt | le | gt | ge =>
    simp only [type?, Option.ite_none_right_eq_some, Bool.and_eq_true, decide_eq_true_eq,
      Ty.isOrdered_iff] at h
    obtain ⟨⟨rfl, rfl | rfl | rfl | rfl⟩, _⟩ := h <;> simp [Ty.isText]

theorem onInts_typed (x y : Int64) (h : op.type? .int .int = some ty) (he : op ≠ .eq)
    (hn : op ≠ .ne) : Typed σ ty (op.onInts x y) := by
  cases op with
  | eq => exact absurd rfl he
  | ne => exact absurd rfl hn
  | div | mod =>
    cases h
    unfold onInts
    simp only
    split
    · rfl
    · exact .int _
  | and | or => cases h
  | _ =>
    cases h
    constructor

theorem onDoubles_typed (x y : Double) (h : op.type? .double .double = some ty) (he : op ≠ .eq)
    (hn : op ≠ .ne) : Typed σ ty (op.onDoubles x y) := by
  cases op with
  | eq => exact absurd rfl he
  | ne => exact absurd rfl hn
  | and | or | mod => cases h
  | _ =>
    cases h
    constructor

theorem onBools_typed (x y : Bool) (h : op.type? .bool .bool = some ty) (he : op ≠ .eq)
    (hn : op ≠ .ne) : Typed σ ty (op.onBools x y) := by
  cases op with
  | eq => exact absurd rfl he
  | ne => exact absurd rfl hn
  | and | or =>
    cases h
    constructor
  | _ => cases h

theorem onStrings_typed (x y : String) (hl : left.isText = true) (hr : right.isText = true)
    (h : op.type? left right = some ty) (he : op ≠ .eq) (hn : op ≠ .ne) :
    Typed σ ty (op.onStrings x y) := by
  have hl' : left = .char ∨ left = .string := by cases left <;> simp_all [Ty.isText]
  have hr' : right = .char ∨ right = .string := by cases right <;> simp_all [Ty.isText]
  cases op with
  | eq => exact absurd rfl he
  | ne => exact absurd rfl hn
  | add | lt | le | gt | ge =>
    rcases hl' with rfl | rfl <;> rcases hr' with rfl | rfl <;> cases h <;> constructor
  | _ => rcases hl' with rfl | rfl <;> rcases hr' with rfl | rfl <;> cases h

theorem apply_typed {a b : Value} (ha : a.HasType σ left) (hb : b.HasType σ right)
    (h : op.type? left right = some ty) : Typed σ ty (op.apply a b) := by
  rcases type?_cases h with ⟨rfl | rfl, rfl⟩ | ⟨he, hn, hkind⟩
  · exact .bool _
  · exact .bool _
  · have happly : op.apply a b = op.onOperands a b := by
      cases op <;> first | rfl | exact absurd rfl he | exact absurd rfl hn
    rw [happly]
    rcases hkind with ⟨rfl, rfl⟩ | ⟨rfl, rfl⟩ | ⟨rfl, rfl⟩ | ⟨hl, hr⟩
    · cases ha with
      | nil => rfl
      | int x =>
        cases hb with
        | nil => rfl
        | int y => exact onInts_typed x y h he hn
    · cases ha with
      | nil => rfl
      | double x =>
        cases hb with
        | nil => rfl
        | double y => exact onDoubles_typed x y h he hn
    · cases ha with
      | nil => rfl
      | bool x =>
        cases hb with
        | nil => rfl
        | bool y => exact onBools_typed x y h he hn
    · cases ha with
      | nil => rfl
      | char x | string x =>
        cases hb with
        | nil => rfl
        | char y | string y => exact onStrings_typed x y hl hr h he hn
        | _ => cases hr
      | _ => cases hl

end BinOp

namespace Value

theorem neg_typed (hv : v.HasType σ ty) (h : ty.isNumeric = true) : Typed σ ty v.neg := by
  cases hv with
  | nil => rfl
  | int n => exact .int _
  | double x => exact .double _
  | _ => cases h

theorem not_typed (hv : v.HasType σ .bool) : Typed σ .bool v.not := by
  cases hv with
  | nil => rfl
  | bool b => exact .bool _

theorem length_typed (hv : v.HasType σ .string) : Typed σ .int v.length := by
  cases hv with
  | nil => rfl
  | string s => exact .int _

theorem charAt_typed (s : String) (index : Int64) : Typed σ .char (charAt s index) := by
  unfold charAt
  split
  · exact .char _
  · rfl

theorem toInt_typed (hv : v.HasType σ ty) (h : ty = .string ∨ ty = .double) :
    Typed σ .int v.toInt := by
  cases hv with
  | nil => rfl
  | string s =>
    unfold toInt
    simp only
    split
    · exact .int _
    · rfl
  | double x =>
    unfold toInt
    simp only
    split
    · exact .int _
    · rfl
  | _ => simp at h

theorem toDouble_typed (hv : v.HasType σ ty) (h : ty = .string ∨ ty = .int) :
    Typed σ .double v.toDouble := by
  cases hv with
  | nil => rfl
  | string s =>
    unfold toDouble
    simp only
    split
    · exact .double _
    · rfl
  | int n => exact .double _
  | _ => simp at h

theorem toText_typed (hv : v.HasType σ ty) (h : ty.isNumeric = true) :
    Typed σ .string v.toText := by
  cases hv with
  | nil => rfl
  | int n => exact .string _
  | double x => exact .string _
  | _ => cases h

end Value

end Operations

end RecordLang

import RecordLang.Table

/-! # Scopes

Nested scopes give names their meaning; an inner declaration hides outer ones of the same name.
-/

namespace RecordLang

/-- The open scopes, the innermost first. -/
abbrev Scopes (α : Type) := List (Table α)

namespace Scopes

variable {α : Type}

def push (s : Scopes α) : Scopes α := [] :: s

def pop (s : Scopes α) : Scopes α := s.tail

def depth (s : Scopes α) : Nat := s.length

/-- Declares a name in the innermost scope; without one, nothing happens. -/
def declare : Scopes α → String → α → Scopes α
  | [], _, _ => []
  | t :: s, name, v => t.put name v :: s

/-- The meaning of a name in the innermost scope that declares it. -/
def find? : Scopes α → String → Option α
  | [], _ => none
  | t :: s, name =>
    match t.get? name with
    | some v => some v
    | none => find? s name

/-- Whether the innermost scope declares the name. -/
def declaredHere : Scopes α → String → Bool
  | [], _ => false
  | t :: _, name => t.has name

end Scopes

end RecordLang

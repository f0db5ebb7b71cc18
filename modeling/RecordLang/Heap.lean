import RecordLang.Fault

/-! # The heap

Objects are numbered from one in the order in which they are made. A number is never given out
again, so that a reference to a deleted object is noticed for ever.
-/

namespace RecordLang

/-- The objects made so far, by their fields; a deleted object has left an empty place. -/
structure Heap where
  objects : Array (Option (Table Value)) := #[]
  deriving DecidableEq

namespace Heap

def empty : Heap := {}

/-- Makes an object whose fields are all nil. -/
def alloc (h : Heap) (fields : List String) : Nat × Heap :=
  (h.objects.size + 1, ⟨h.objects.push (some (fields.map fun f => (f, .nil)))⟩)

def fields (h : Heap) (id : Nat) : Except Cause (Table Value) :=
  match id with
  | 0 => .error (.unknownObject 0)
  | n + 1 =>
    match h.objects[n]? with
    | some (some t) => .ok t
    | some none => .error (.freedObject (n + 1))
    | none => .error (.unknownObject (n + 1))

def replace (h : Heap) (id : Nat) (cell : Option (Table Value)) : Heap :=
  ⟨h.objects.setIfInBounds (id - 1) cell⟩

def free (h : Heap) (id : Nat) : Except Cause Heap :=
  match h.fields id with
  | .ok _ => .ok (h.replace id none)
  | .error e => .error e

def getField (h : Heap) (id : Nat) (field : String) : Except Cause Value :=
  match h.fields id with
  | .ok t =>
    match t.get? field with
    | some v => .ok v
    | none => .error (.noSuchField id field)
  | .error e => .error e

def setField (h : Heap) (id : Nat) (field : String) (v : Value) : Except Cause Heap :=
  match h.fields id with
  | .ok t =>
    if t.has field then .ok (h.replace id (some (t.put field v)))
    else .error (.noSuchField id field)
  | .error e => .error e

/-- How many objects have not been deleted. -/
def live (h : Heap) : Nat := h.objects.countP Option.isSome

end Heap

end RecordLang

import RecordLang.Typing.Error

/-! # Records that construct themselves

Making a record evaluates the initializers of its fields, which may make further records. A record
that is made again on the way would never be finished, so such programs are refused.
-/

namespace RecordLang

mutual

def Expr.constructions : Expr → List Ident
  | .single _ first _ => first.constructions
  | .chain _ first _ _ rest _ => first.constructions ++ rest.constructions

def Term.constructions : Term → List Ident
  | .literal _ _ => []
  | .construct r => [r]
  | .path _ => []
  | .call _ args => argConstructions args
  | .neg operand _ => operand.constructions
  | .paren inner => inner.constructions

def argConstructions : List Expr → List Ident
  | [] => []
  | arg :: args => arg.constructions ++ argConstructions args

end

/-- The records that the initializers of a record make. -/
def RecordDecl.constructions (d : RecordDecl) : List Ident :=
  d.fields.flatMap fun f => f.init.constructions

namespace Program

/-- The records that making the record `name` makes at once. -/
def constructions (p : Program) (name : String) : List Ident :=
  match p.records.find? (·.name.text = name) with
  | some d => d.constructions
  | none => []

theorem length_constructions_erase (p : Program) {name : String} {fresh : List String}
    (h : name ∈ fresh) :
    (p.constructions name).length + ((fresh.erase name).flatMap p.constructions).length =
      (fresh.flatMap p.constructions).length := by
  rw [← List.length_append, ← List.flatMap_cons]
  exact ((List.perm_cons_erase h).flatMap_right _).length_eq.symm

/-- Follows constructions from the list `work`, its first entry first, until `root` is made again.
`fresh` holds the records whose own constructions have not been followed yet. -/
def findConstruction? (p : Program) (root : String) (fresh : List String) (work : List Ident) :
    Option Ident :=
  match work with
  | [] => none
  | target :: rest =>
    if target.text = root then some target
    else if target.text ∈ fresh then
      p.findConstruction? root (fresh.erase target.text)
        ((p.constructions target.text).reverse ++ rest)
    else p.findConstruction? root fresh rest
termination_by work.length + (fresh.flatMap p.constructions).length
decreasing_by
  · have := p.length_constructions_erase ‹target.text ∈ fresh›
    simp only [List.length_append, List.length_reverse, List.length_cons]
    omega
  · simp only [List.length_cons]
    omega

/-- Refuses the first record that constructs itself. -/
def checkConstruction (p : Program) (d : RecordDecl) : Except TypeError Unit :=
  let root := d.name.text
  let fresh := (p.records.map (·.name.text)).erase root
  match p.findConstruction? root fresh (p.constructions root).reverse with
  | some target => violated target.pos (.selfConstruction root)
  | none => .ok ()

end Program

end RecordLang

import RecordLang.Program
import RecordLang.Token
import Mathlib.Tactic.MkIffOfInductiveProp

/-! # How program trees are written

`tokens` writes a tree as a row of tokens. Not every tree has a written form that means it: the
trees that have one are the well-formed ones. Two trees that differ in the places of their parts
alone are written alike; `bare` forgets those places.
-/

namespace RecordLang

/-! ## Words -/

def BinOp.token : BinOp → Token
  | .add => .symbol .plus
  | .sub => .symbol .minus
  | .mul => .symbol .star
  | .div => .symbol .slash
  | .mod => .symbol .percent
  | .and => .keyword .andWord
  | .or => .keyword .orWord
  | .eq => .symbol .equal
  | .ne => .symbol .notEqual
  | .lt => .symbol .less
  | .le => .symbol .lessEq
  | .gt => .symbol .greater
  | .ge => .symbol .greaterEq

def Literal.token : Literal → Token
  | .int n => .int n
  | .double d => .double d
  | .bool b => .bool b
  | .char x => .char x
  | .string s => .string s
  | .nil => .nil

def Ty.token : Ty → Token
  | .int => .keyword .intType
  | .double => .keyword .doubleType
  | .bool => .keyword .boolType
  | .char => .keyword .charType
  | .string => .keyword .stringType
  | .void => .keyword .voidType
  | .nil => .nil
  | .record name => .name name

def Direction.token : Direction → Token
  | .upto => .keyword .uptoWord
  | .downto => .keyword .downtoWord

def Ident.token (x : Ident) : Token := .name x.text

def TypeNote.token (note : TypeNote) : Token := note.ty.token

/-! ## Written forms -/

def pathTokens (names : List Ident) : List Token :=
  (names.map Ident.token).intersperse (.symbol .dot)

theorem pathTokens_cons_cons (x y : Ident) (names : List Ident) :
    pathTokens (x :: y :: names) = x.token :: .symbol .dot :: pathTokens (y :: names) := rfl

theorem exists_pathTokens_eq (x : Ident) (names : List Ident) :
    ∃ more, pathTokens (x :: names) = x.token :: more := by
  cases names <;> exact ⟨_, rfl⟩

/-- Items with commas between them, and the closing parenthesis. -/
def listTokens : List (List Token) → List Token
  | [] => [.symbol .closeParen]
  | [item] => item ++ [.symbol .closeParen]
  | item :: items => item ++ .symbol .comma :: listTokens items

theorem listTokens_cons_cons (x y : List Token) (items : List (List Token)) :
    listTokens (x :: y :: items) = x ++ .symbol .comma :: listTokens (y :: items) := rfl

theorem exists_listTokens_eq (item : List Token) (items : List (List Token)) :
    ∃ more, listTokens (item :: items) = item ++ more := by
  cases items <;> exact ⟨_, rfl⟩

def callTokens (fn : Ident) (items : List (List Token)) : List Token :=
  fn.token :: .symbol .openParen :: listTokens items

def inBraces (body : List Token) : List Token :=
  .symbol .openBrace :: (body ++ [.symbol .closeBrace])

mutual

def Expr.tokens : Expr → List Token
  | .single false first _ => first.tokens
  | .single true (.paren inner) _ => .keyword .notWord :: inner.tokens
  | .single true first _ => .keyword .notWord :: first.tokens
  | .chain _ first op _ rest _ => first.tokens ++ op.token :: rest.tokens

def Term.tokens : Term → List Token
  | .literal value _ => [value.token]
  | .construct record => [.keyword .newWord, record.token]
  | .path names => pathTokens names
  | .call fn args => callTokens fn (argTokens args)
  | .neg operand _ => .keyword .negWord :: operand.tokens
  | .paren inner => .symbol .openParen :: (inner.tokens ++ [.symbol .closeParen])

def argTokens : List Expr → List (List Token)
  | [] => []
  | arg :: args => arg.tokens :: argTokens args

end

def Binding.tokens (b : Binding) : List Token :=
  .keyword .varWord ::
    (b.declared.toList.map TypeNote.token ++ b.name.token :: .symbol .assign :: b.init.tokens)

mutual

def Stmt.tokens : Stmt → List Token
  | .declare b => b.tokens
  | .assign target value => pathTokens target ++ .symbol .assign :: value.tokens
  | .cond branches => branches.tokens .ifWord
  | .loop test body => .keyword .whileWord :: (test.tokens ++ inBraces (stmtsTokens body))
  | .count var start direction stop body =>
    .keyword .forWord :: var.token :: .keyword .fromWord ::
      (start.tokens ++ direction.token :: (stop.tokens ++ inBraces (stmtsTokens body)))
  | .ret none _ => [.keyword .returnWord]
  | .ret (some value) _ => .keyword .returnWord :: value.tokens
  | .delete name => [.keyword .deleteWord, name.token]
  | .call fn args => callTokens fn (argTokens args)

/-- The branches of a conditional, of which the first begins with `word`. -/
def Branches.tokens : Branches → Keyword → List Token
  | .done, _ => []
  | .otherwise body, _ => .keyword .elseWord :: inBraces (stmtsTokens body)
  | .branch test body rest, word =>
    .keyword word :: (test.tokens ++ (inBraces (stmtsTokens body) ++ rest.tokens .elifWord))

def stmtsTokens : List Stmt → List Token
  | [] => []
  | s :: more => s.tokens ++ stmtsTokens more

end

def RecordDecl.tokens (d : RecordDecl) : List Token :=
  .keyword .typeWord :: d.name.token :: inBraces (d.fields.flatMap Binding.tokens)

def Param.tokens (x : Param) : List Token := [x.note.token, x.name.token]

def FunDecl.tokens (f : FunDecl) : List Token :=
  .keyword .funWord :: f.ret.token ::
    (callTokens f.name (f.params.map Param.tokens) ++ inBraces (stmtsTokens f.body))

/-- The rows of `xs` and those of `ys`, each in their order, make up `ts`. -/
inductive Interleaves : List (List Token) → List (List Token) → List Token → Prop
  | nil : Interleaves [] [] []
  | left {xs ys : List (List Token)} {ts : List Token} (x : List Token) :
    Interleaves xs ys ts → Interleaves (x :: xs) ys (x ++ ts)
  | right {xs ys : List (List Token)} {ts : List Token} (y : List Token) :
    Interleaves xs ys ts → Interleaves xs (y :: ys) (y ++ ts)

/-- The tokens are the declarations of the program, records and functions each in their order. -/
def Program.Spells (p : Program) (ts : List Token) : Prop :=
  Interleaves (p.records.map RecordDecl.tokens) (p.funs.map FunDecl.tokens) ts

/-! ## Well-formed trees -/

def Term.isNeg : Term → Bool
  | .neg _ _ => true
  | _ => false

mutual

/-- Negation takes a whole chain, which stands in a `paren` of its own; what `neg` applies to ends
the chain. -/
def Expr.WellFormed : Expr → Prop
  | .single false first _ => first.WellFormed
  | .single true (.paren inner) _ => inner.WellFormed
  | .single true _ _ => False
  | .chain negated first _ _ rest _ =>
    negated = false ∧ first.isNeg = false ∧ first.WellFormed ∧ rest.WellFormed

def Term.WellFormed : Term → Prop
  | .literal _ _ => True
  | .construct _ => True
  | .path names => names ≠ []
  | .call _ args => ArgsWellFormed args
  | .neg operand _ => operand.WellFormed
  | .paren inner => inner.WellFormed

def ArgsWellFormed : List Expr → Prop
  | [] => True
  | arg :: args => arg.WellFormed ∧ ArgsWellFormed args

end

def TypeNote.OfVariable (note : TypeNote) : Prop := note.ty ≠ .nil ∧ note.ty ≠ .void

def Binding.WellFormed (b : Binding) : Prop :=
  (∀ note ∈ b.declared, note.OfVariable) ∧ b.init.WellFormed

def Stmt.isBareReturn : Stmt → Bool
  | .ret none _ => true
  | _ => false

def Stmt.beginsWithName : Stmt → Bool
  | .assign _ _ | .call _ _ => true
  | _ => false

def Branches.hasTest : Branches → Bool
  | .branch _ _ _ => true
  | _ => false

mutual

def Stmt.WellFormed : Stmt → Prop
  | .declare b => b.WellFormed
  | .assign target value => target ≠ [] ∧ value.WellFormed
  | .cond branches => branches.hasTest = true ∧ branches.WellFormed
  | .loop test body => test.WellFormed ∧ StmtsWellFormed body
  | .count _ start _ stop body => start.WellFormed ∧ stop.WellFormed ∧ StmtsWellFormed body
  | .ret none _ => True
  | .ret (some value) _ => value.WellFormed
  | .delete _ => True
  | .call _ args => ArgsWellFormed args

def Branches.WellFormed : Branches → Prop
  | .done => True
  | .otherwise body => StmtsWellFormed body
  | .branch test body rest => test.WellFormed ∧ StmtsWellFormed body ∧ rest.WellFormed

/-- A name behind a bare `return` would be taken for the value that is returned. -/
def StmtsWellFormed : List Stmt → Prop
  | [] => True
  | s :: more =>
    s.WellFormed ∧ (s.isBareReturn = true → ∀ s' ∈ more.head?, s'.beginsWithName = false) ∧
      StmtsWellFormed more

end

def RecordDecl.WellFormed (d : RecordDecl) : Prop := ∀ b ∈ d.fields, b.WellFormed

def FunDecl.WellFormed (f : FunDecl) : Prop :=
  f.ret.ty ≠ .nil ∧ (∀ x ∈ f.params, x.note.OfVariable) ∧ StmtsWellFormed f.body

@[mk_iff]
structure Program.WellFormed (p : Program) : Prop where
  records : ∀ d ∈ p.records, d.WellFormed
  funs : ∀ f ∈ p.funs, f.WellFormed

/-! ## Trees without places -/

def Ident.bare (x : Ident) : Ident := ⟨x.text, .start⟩

def TypeNote.bare (note : TypeNote) : TypeNote := ⟨note.ty, .start⟩

mutual

def Expr.bare : Expr → Expr
  | .single negated first _ => .single negated first.bare .start
  | .chain negated first op _ rest _ => .chain negated first.bare op .start rest.bare .start

def Term.bare : Term → Term
  | .literal value _ => .literal value .start
  | .construct record => .construct record.bare
  | .path names => .path (names.map Ident.bare)
  | .call fn args => .call fn.bare (bareArgs args)
  | .neg operand _ => .neg operand.bare .start
  | .paren inner => .paren inner.bare

def bareArgs : List Expr → List Expr
  | [] => []
  | arg :: args => arg.bare :: bareArgs args

end

def Binding.bare (b : Binding) : Binding :=
  ⟨b.name.bare, b.declared.map TypeNote.bare, b.init.bare⟩

mutual

def Stmt.bare : Stmt → Stmt
  | .declare b => .declare b.bare
  | .assign target value => .assign (target.map Ident.bare) value.bare
  | .cond branches => .cond branches.bare
  | .loop test body => .loop test.bare (bareStmts body)
  | .count var start direction stop body =>
    .count var.bare start.bare direction stop.bare (bareStmts body)
  | .ret value _ => .ret (value.map Expr.bare) .start
  | .delete name => .delete name.bare
  | .call fn args => .call fn.bare (bareArgs args)

def Branches.bare : Branches → Branches
  | .done => .done
  | .otherwise body => .otherwise (bareStmts body)
  | .branch test body rest => .branch test.bare (bareStmts body) rest.bare

def bareStmts : List Stmt → List Stmt
  | [] => []
  | s :: more => s.bare :: bareStmts more

end

def RecordDecl.bare (d : RecordDecl) : RecordDecl := ⟨d.name.bare, d.fields.map Binding.bare⟩

def Param.bare (x : Param) : Param := ⟨x.note.bare, x.name.bare⟩

def FunDecl.bare (f : FunDecl) : FunDecl :=
  ⟨f.ret.bare, f.name.bare, f.params.map Param.bare, bareStmts f.body⟩

def Program.bare (p : Program) : Program :=
  ⟨p.records.map RecordDecl.bare, p.funs.map FunDecl.bare⟩

@[simp] theorem Ident.token_bare (x : Ident) : x.bare.token = x.token := rfl

@[simp] theorem TypeNote.token_bare (note : TypeNote) : note.bare.token = note.token := rfl

@[simp] theorem TypeNote.ofVariable_bare (note : TypeNote) :
    note.bare.OfVariable ↔ note.OfVariable := Iff.rfl

@[simp] theorem Term.isNeg_bare (t : Term) : t.bare.isNeg = t.isNeg := by
  cases t <;> rfl

@[simp] theorem pathTokens_bare (names : List Ident) :
    pathTokens (names.map Ident.bare) = pathTokens names := by
  simp [pathTokens, Function.comp_def]

@[simp] theorem callTokens_bare (fn : Ident) (items : List (List Token)) :
    callTokens fn.bare items = callTokens fn items := rfl

mutual

@[simp] theorem Expr.tokens_bare (e : Expr) : e.bare.tokens = e.tokens := by
  match e with
  | .single false first _ => simp [Expr.bare, Expr.tokens, first.tokens_bare]
  | .single true (.paren inner) _ => simp [Expr.bare, Term.bare, Expr.tokens, inner.tokens_bare]
  | .single true (.literal _ _) _ => rfl
  | .single true (.construct _) _ => rfl
  | .single true (.path names) _ => simp [Expr.bare, Term.bare, Expr.tokens, Term.tokens]
  | .single true (.call fn args) _ =>
    simp [Expr.bare, Term.bare, Expr.tokens, Term.tokens, argTokens_bare args]
  | .single true (.neg operand _) _ =>
    simp [Expr.bare, Term.bare, Expr.tokens, Term.tokens, operand.tokens_bare]
  | .chain _ first _ _ rest _ => simp [Expr.bare, Expr.tokens, first.tokens_bare, rest.tokens_bare]

@[simp] theorem Term.tokens_bare (t : Term) : t.bare.tokens = t.tokens := by
  match t with
  | .literal _ _ => rfl
  | .construct _ => rfl
  | .path names => simp [Term.bare, Term.tokens]
  | .call fn args => simp [Term.bare, Term.tokens, argTokens_bare args]
  | .neg operand _ => simp [Term.bare, Term.tokens, operand.tokens_bare]
  | .paren inner => simp [Term.bare, Term.tokens, inner.tokens_bare]

@[simp] theorem argTokens_bare (args : List Expr) : argTokens (bareArgs args) = argTokens args := by
  match args with
  | [] => rfl
  | arg :: args => simp [bareArgs, argTokens, arg.tokens_bare, argTokens_bare args]

end

mutual

@[simp] theorem Expr.wellFormed_bare (e : Expr) : e.bare.WellFormed ↔ e.WellFormed := by
  match e with
  | .single false first _ => simp [Expr.bare, Expr.WellFormed, first.wellFormed_bare]
  | .single true (.paren inner) _ =>
    simp [Expr.bare, Term.bare, Expr.WellFormed, inner.wellFormed_bare]
  | .single true (.literal _ _) _ => rfl
  | .single true (.construct _) _ => rfl
  | .single true (.path _) _ => rfl
  | .single true (.call _ _) _ => rfl
  | .single true (.neg _ _) _ => rfl
  | .chain _ first _ _ rest _ =>
    simp [Expr.bare, Expr.WellFormed, first.wellFormed_bare, rest.wellFormed_bare]

@[simp] theorem Term.wellFormed_bare (t : Term) : t.bare.WellFormed ↔ t.WellFormed := by
  match t with
  | .literal _ _ => rfl
  | .construct _ => rfl
  | .path names => simp [Term.bare, Term.WellFormed]
  | .call fn args => simp [Term.bare, Term.WellFormed, argsWellFormed_bare args]
  | .neg operand _ => simp [Term.bare, Term.WellFormed, operand.wellFormed_bare]
  | .paren inner => simp [Term.bare, Term.WellFormed, inner.wellFormed_bare]

@[simp] theorem argsWellFormed_bare (args : List Expr) :
    ArgsWellFormed (bareArgs args) ↔ ArgsWellFormed args := by
  match args with
  | [] => rfl
  | arg :: args =>
    simp [bareArgs, ArgsWellFormed, arg.wellFormed_bare, argsWellFormed_bare args]

end

@[simp] theorem Binding.tokens_bare (b : Binding) : b.bare.tokens = b.tokens := by
  simp [Binding.bare, Binding.tokens, Option.toList_map, Function.comp_def]

@[simp] theorem Binding.wellFormed_bare (b : Binding) : b.bare.WellFormed ↔ b.WellFormed := by
  simp [Binding.bare, Binding.WellFormed]

@[simp] theorem Stmt.isBareReturn_bare (s : Stmt) : s.bare.isBareReturn = s.isBareReturn := by
  match s with
  | .ret none _ => rfl
  | .ret (some _) _ => rfl
  | .declare _ | .assign _ _ | .cond _ | .loop _ _ | .count _ _ _ _ _ | .delete _ | .call _ _ => rfl

@[simp] theorem Stmt.beginsWithName_bare (s : Stmt) :
    s.bare.beginsWithName = s.beginsWithName := by
  cases s <;> rfl

@[simp] theorem Branches.hasTest_bare (bs : Branches) : bs.bare.hasTest = bs.hasTest := by
  cases bs <;> rfl

theorem head?_bareStmts (ss : List Stmt) : (bareStmts ss).head? = ss.head?.map Stmt.bare := by
  cases ss <;> rfl

mutual

@[simp] theorem Stmt.tokens_bare (s : Stmt) : s.bare.tokens = s.tokens := by
  match s with
  | .declare b => simp [Stmt.bare, Stmt.tokens]
  | .assign target value => simp [Stmt.bare, Stmt.tokens]
  | .cond branches => simp [Stmt.bare, Stmt.tokens, branches.tokens_bare]
  | .loop test body => simp [Stmt.bare, Stmt.tokens, stmtsTokens_bare body]
  | .count var start direction stop body => simp [Stmt.bare, Stmt.tokens, stmtsTokens_bare body]
  | .ret none _ => rfl
  | .ret (some value) _ => simp [Stmt.bare, Stmt.tokens]
  | .delete name => rfl
  | .call fn args => simp [Stmt.bare, Stmt.tokens]

@[simp] theorem Branches.tokens_bare (bs : Branches) (word : Keyword) :
    bs.bare.tokens word = bs.tokens word := by
  match bs with
  | .done => rfl
  | .otherwise body => simp [Branches.bare, Branches.tokens, stmtsTokens_bare body]
  | .branch test body rest =>
    simp [Branches.bare, Branches.tokens, stmtsTokens_bare body, rest.tokens_bare]

@[simp] theorem stmtsTokens_bare (ss : List Stmt) :
    stmtsTokens (bareStmts ss) = stmtsTokens ss := by
  match ss with
  | [] => rfl
  | s :: more => simp [bareStmts, stmtsTokens, s.tokens_bare, stmtsTokens_bare more]

end

mutual

@[simp] theorem Stmt.wellFormed_bare (s : Stmt) : s.bare.WellFormed ↔ s.WellFormed := by
  match s with
  | .declare b => simp [Stmt.bare, Stmt.WellFormed]
  | .assign target value => simp [Stmt.bare, Stmt.WellFormed]
  | .cond branches => simp [Stmt.bare, Stmt.WellFormed, branches.wellFormed_bare]
  | .loop test body => simp [Stmt.bare, Stmt.WellFormed, stmtsWellFormed_bare body]
  | .count var start direction stop body =>
    simp [Stmt.bare, Stmt.WellFormed, stmtsWellFormed_bare body]
  | .ret none _ => rfl
  | .ret (some value) _ => simp [Stmt.bare, Stmt.WellFormed]
  | .delete name => rfl
  | .call fn args => simp [Stmt.bare, Stmt.WellFormed]

@[simp] theorem Branches.wellFormed_bare (bs : Branches) :
    bs.bare.WellFormed ↔ bs.WellFormed := by
  match bs with
  | .done => rfl
  | .otherwise body => simp [Branches.bare, Branches.WellFormed, stmtsWellFormed_bare body]
  | .branch test body rest =>
    simp [Branches.bare, Branches.WellFormed, stmtsWellFormed_bare body, rest.wellFormed_bare]

@[simp] theorem stmtsWellFormed_bare (ss : List Stmt) :
    StmtsWellFormed (bareStmts ss) ↔ StmtsWellFormed ss := by
  match ss with
  | [] => rfl
  | s :: more =>
    simp [bareStmts, StmtsWellFormed, s.wellFormed_bare, stmtsWellFormed_bare more,
      head?_bareStmts]

end

@[simp] theorem RecordDecl.tokens_bare (d : RecordDecl) : d.bare.tokens = d.tokens := by
  simp [RecordDecl.bare, RecordDecl.tokens, List.flatMap_map]

@[simp] theorem RecordDecl.wellFormed_bare (d : RecordDecl) : d.bare.WellFormed ↔ d.WellFormed := by
  simp [RecordDecl.bare, RecordDecl.WellFormed]

@[simp] theorem Param.tokens_bare (x : Param) : x.bare.tokens = x.tokens := rfl

@[simp] theorem FunDecl.tokens_bare (f : FunDecl) : f.bare.tokens = f.tokens := by
  simp [FunDecl.bare, FunDecl.tokens, Function.comp_def]

@[simp] theorem FunDecl.wellFormed_bare (f : FunDecl) : f.bare.WellFormed ↔ f.WellFormed := by
  simp [FunDecl.bare, FunDecl.WellFormed, Param.bare, TypeNote.bare, TypeNote.OfVariable]

theorem Program.spells_bare (p : Program) (ts : List Token) : p.bare.Spells ts ↔ p.Spells ts := by
  simp [Program.bare, Program.Spells, Function.comp_def]

theorem Program.wellFormed_bare (p : Program) : p.bare.WellFormed ↔ p.WellFormed := by
  simp [Program.wellFormed_iff, Program.bare]

end RecordLang

import RecordLang.Proofs.Grammar.Soundness

/-! # Every written form is read

On the written form of a well-formed tree a reader succeeds, takes exactly that form and finds the
tree again, up to places. There are no marks between statements or around expressions, so this
depends on what may stand behind each of them: a token that ends an expression is neither an
operator nor a point nor an opening parenthesis, and no statement begins with one of these.
-/

namespace RecordLang

variable {ts : List Token}

/-! ## First tokens -/

namespace Token

def beginsTerm : Token → Bool
  | .name _ | .keyword .newWord | .keyword .negWord | .symbol .openParen => true
  | t => (Cursor.literal? t).isSome

def beginsExpr (t : Token) : Bool := t = .keyword .notWord || t.beginsTerm

def beginsStmt : Token → Bool
  | .name _ | .keyword .varWord | .keyword .ifWord | .keyword .whileWord | .keyword .forWord
  | .keyword .returnWord | .keyword .deleteWord => true
  | _ => false

def endsName (t : Token) : Bool := t ≠ .symbol .dot && t ≠ .symbol .openParen

def endsExpr (t : Token) : Bool := t.endsName && !t.isOperator

def endsStmt (t : Token) : Bool := t.beginsStmt || t = .symbol .closeBrace

theorem endsName_of_endsExpr {t : Token} (h : t.endsExpr = true) : t.endsName = true :=
  (Bool.and_eq_true_iff.mp h).1

theorem endsExpr_of_endsStmt {t : Token} (h : t.endsStmt = true) : t.endsExpr = true := by
  match t with
  | .name _ => rfl
  | .keyword word => cases word <;> first | rfl | cases h
  | .symbol mark => cases mark <;> first | rfl | cases h

end Token

theorem Literal.beginsTerm_token (v : Literal) : v.token.beginsTerm = true := by
  cases v <;> rfl

theorem Cursor.literal?_token (v : Literal) : literal? v.token = some v := by
  cases v <;> rfl

theorem Cursor.binOp?_token (op : BinOp) : binOp? op.token = some op := by
  cases op <;> rfl

theorem BinOp.endsName_token (op : BinOp) : op.token.endsName = true := by
  cases op <;> rfl

theorem Ty.token_ne_symbol (ty : Ty) (mark : Symbol) : ty.token ≠ .symbol mark := by
  cases ty <;> nofun

theorem Term.exists_tokens_eq {t : Term} (ht : t.WellFormed) :
    ∃ u more, t.tokens = u :: more ∧ u.beginsTerm = true := by
  match t with
  | .literal v _ => exact ⟨v.token, _, rfl, v.beginsTerm_token⟩
  | .path (x :: names) =>
    obtain ⟨more, h⟩ := exists_pathTokens_eq x names
    exact ⟨x.token, more, h, rfl⟩
  | .path [] => exact absurd rfl ht
  | .construct _ | .call _ _ | .neg _ _ | .paren _ => exact ⟨_, _, rfl, rfl⟩

theorem Expr.exists_tokens_eq {e : Expr} (he : e.WellFormed) :
    ∃ u more, e.tokens = u :: more ∧ u.beginsExpr = true := by
  match e with
  | .single false first _ =>
    obtain ⟨u, more, h, hu⟩ := first.exists_tokens_eq he
    exact ⟨u, more, h, by simp [Token.beginsExpr, hu]⟩
  | .single true (.paren inner) _ => exact ⟨_, _, rfl, rfl⟩
  | .chain _ first _ _ rest _ =>
    obtain ⟨u, more, h, hu⟩ := first.exists_tokens_eq he.2.2.1
    exact ⟨u, _, by rw [Expr.tokens, h]; rfl, by simp [Token.beginsExpr, hu]⟩

theorem Stmt.exists_tokens_eq {s : Stmt} (hs : s.WellFormed) :
    ∃ u more, s.tokens = u :: more ∧ u.beginsStmt = true ∧
      (s.beginsWithName = false → u.beginsExpr = false) := by
  match s with
  | .assign (x :: names) value =>
    obtain ⟨more, h⟩ := exists_pathTokens_eq x names
    exact ⟨x.token, _, by rw [Stmt.tokens, h]; rfl, rfl, nofun⟩
  | .assign [] value => exact absurd rfl hs.1
  | .cond (.branch _ _ _) => exact ⟨_, _, rfl, rfl, fun _ => rfl⟩
  | .cond .done => cases hs.1
  | .cond (.otherwise _) => cases hs.1
  | .call _ _ => exact ⟨_, _, rfl, rfl, nofun⟩
  | .declare _ | .loop _ _ | .count _ _ _ _ _ | .ret none _ | .ret (some _) _ | .delete _ =>
    exact ⟨_, _, rfl, rfl, fun _ => rfl⟩

theorem endsStmt_head {ss : List Stmt} (hss : StmtsWellFormed ss) :
    ∀ u ∈ (stmtsTokens ss ++ .symbol .closeBrace :: ts).head?, u.endsStmt = true := by
  cases ss with
  | nil =>
    rintro _ ⟨⟩
    rfl
  | cons s ss =>
    obtain ⟨u, more, h, hu, _⟩ := s.exists_tokens_eq hss.1
    rw [stmtsTokens, h]
    rintro _ ⟨⟩
    simp [Token.endsStmt, hu]

theorem not_beginsExpr_head {ss : List Stmt} (hss : StmtsWellFormed ss)
    (hname : ∀ s ∈ ss.head?, s.beginsWithName = false) :
    ∀ u ∈ (stmtsTokens ss ++ .symbol .closeBrace :: ts).head?, u.beginsExpr = false := by
  cases ss with
  | nil =>
    rintro _ ⟨⟩
    rfl
  | cons s ss =>
    obtain ⟨u, more, h, _, hu⟩ := s.exists_tokens_eq hss.1
    rw [stmtsTokens, h]
    rintro _ ⟨⟩
    exact hu (hname s rfl)

theorem Branches.exists_tokens_eq {bs : Branches} (h : bs.hasTest = true) :
    ∃ more, ∀ word, bs.tokens word = .keyword word :: more := by
  match bs with
  | .branch _ _ _ => exact ⟨_, fun _ => rfl⟩

namespace Cursor

variable {c : Cursor}

theorem startsExpr_eq (c : Cursor) : c.startsExpr = c.tokens.head?.any Token.beginsExpr := by
  unfold startsExpr
  match h : c.tokens with
  | [] => rcases tokens_eq_nil_iff.mp h with h | h <;> rw [h] <;> rfl
  | t :: ts =>
    rw [peek_of_tokens h]
    match t with
    | .keyword word => cases word <;> rfl
    | .symbol mark => cases mark <;> rfl
    | .int _ | .double _ | .bool _ | .char _ | .string _ | .nil | .name _ | .comment _ | .eof => rfl

theorem bind_binOp?_eq_none (h : ∀ u ∈ ts.head?, u.endsExpr = true) :
    ts.head?.bind binOp? = none := by
  rw [Option.bind_eq_none_iff]
  intro u hu
  cases hop : binOp? u with
  | none => rfl
  | some op =>
    have hends := h u hu
    rw [binOp?_eq_some hop] at hends
    cases op <;> cases hends

theorem peek_ne_not {first : Term} (hwf : first.WellFormed) (h : c.tokens = first.tokens ++ ts) :
    c.peek ≠ some (.keyword .notWord) := by
  obtain ⟨u, more, hu, hbegins⟩ := first.exists_tokens_eq hwf
  rw [hu] at h
  rw [peek_of_tokens h]
  rintro ⟨⟩
  cases hbegins

theorem head?_ne_of_endsName (h : ∀ u ∈ ts.head?, u.endsName = true) :
    ts.head? ≠ some (.symbol .dot) ∧ ts.head? ≠ some (.symbol .openParen) := by
  constructor
  · intro hdot
    cases h _ hdot
  · intro hopen
    cases h _ hopen

theorem peek_path {x : Ident} {names : List Ident} (h : c.tokens = pathTokens (x :: names) ++ ts)
    (hopen : ts.head? ≠ some (.symbol .openParen)) :
    c.peek = some (.name x.text) ∧ c.peekSecond ≠ some (.symbol .openParen) := by
  cases names with
  | nil =>
    refine ⟨peek_of_tokens h, ?_⟩
    rwa [Ne, peekSecond_eq_some_iff h (by simp)]
  | cons y names =>
    refine ⟨peek_of_tokens h, ?_⟩
    rw [Ne, peekSecond_eq_some_iff h (by simp)]
    simp

/-! ## Expressions -/

theorem call_gives {fn : Ident} {args : List Expr} (hwf : ArgsWellFormed args)
    (hargs : args ≠ [] → ∀ c' : Cursor, c'.tokens = listTokens (argTokens args) ++ ts →
      Gives c'.args fun r => bareArgs r.value = bareArgs args ∧ r.next.tokens = ts)
    (h : c.tokens = callTokens fn (argTokens args) ++ ts) :
    Gives c.call fun r =>
      r.value.1.bare = fn.bare ∧ bareArgs r.value.2 = bareArgs args ∧ r.next.tokens = ts := by
  rw [call]
  refine (ident_gives "function name" h).bind ?_
  rintro ⟨fn', c₁, h₁⟩ ⟨hfn, hc₁⟩
  refine (expect_gives hc₁).bind ?_
  rintro ⟨_, c₂, h₂⟩ hc₂
  dsimp only at hfn hc₂ ⊢
  cases args with
  | nil =>
    rw [if_pos (peek_of_tokens hc₂)]
    refine (expect_gives hc₂).bind ?_
    rintro ⟨_, c₃, h₃⟩ hc₃
    exact .pure ⟨hfn, rfl, hc₃⟩
  | cons arg args =>
    have hpeek : c₂.peek ≠ some (.symbol .closeParen) := by
      obtain ⟨u, more, hu, hbegins⟩ := arg.exists_tokens_eq hwf.1
      obtain ⟨more', hmore'⟩ := exists_listTokens_eq arg.tokens (argTokens args)
      rw [argTokens, hmore', hu] at hc₂
      rw [peek_of_tokens hc₂]
      rintro ⟨⟩
      cases hbegins
    rw [if_neg hpeek]
    refine (hargs nofun c₂ hc₂).bind ?_
    rintro ⟨args', c₃, h₃⟩ ⟨hargs', hc₃⟩
    exact .pure ⟨hfn, hargs', hc₃⟩

-- The induction is on the tree. An operand of a chain has an operator behind it, which only `neg`
-- would take.
mutual

theorem expr_gives (e : Expr) {c : Cursor} {ts : List Token} (hwf : e.WellFormed)
    (h : c.tokens = e.tokens ++ ts) (hends : ∀ u ∈ ts.head?, u.endsExpr = true) :
    Gives c.expr fun r => r.value.bare = e.bare ∧ r.next.tokens = ts := by
  match e with
  | .single true (.paren inner) _ =>
    rw [expr, if_pos (peek_of_tokens h)]
    refine (expect_gives h).bind ?_
    rintro ⟨p, c₁, h₁⟩ hc₁
    refine (expr_gives inner hwf hc₁ hends).bind ?_
    rintro ⟨inner', c₂, h₂⟩ ⟨hinner, hc₂⟩
    exact .pure ⟨by simp [Expr.bare, Term.bare, hinner], hc₂⟩
  | .single false first _ =>
    rw [expr, if_neg (peek_ne_not hwf h)]
    refine (term_gives first hwf h (fun u hu => Token.endsName_of_endsExpr (hends u hu))
      fun _ => hends).bind ?_
    rintro ⟨first', c₁, h₁⟩ ⟨hfirst, hc₁⟩
    dsimp only at hfirst hc₁ ⊢
    rw [peek_bind_binOp?, hc₁, bind_binOp?_eq_none hends]
    exact .pure ⟨by simp [Expr.bare, hfirst], hc₁⟩
  | .chain _ first op _ rest _ =>
    obtain ⟨rfl, hneg, hwf, hwf'⟩ := hwf
    rw [Expr.tokens, List.append_assoc] at h
    rw [expr, if_neg (peek_ne_not hwf h)]
    refine (term_gives first hwf h ?_ ?_).bind ?_
    · rintro _ ⟨⟩
      exact op.endsName_token
    · rw [hneg]
      nofun
    · rintro ⟨first', c₁, h₁⟩ ⟨hfirst, hc₁⟩
      dsimp only at hfirst hc₁ ⊢
      have hop : c₁.peek.bind binOp? = some op := by
        rw [peek_of_tokens hc₁]
        exact binOp?_token op
      rw [hop]
      refine (take_gives (by rfl) hc₁).bind ?_
      rintro ⟨p, c₂, h₂⟩ ⟨_, hc₂⟩
      refine (expr_gives rest hwf' hc₂ hends).bind ?_
      rintro ⟨rest', c₃, h₃⟩ ⟨hrest, hc₃⟩
      exact .pure ⟨by simp [Expr.bare, hfirst, hrest], hc₃⟩
  | .single true (.literal _ _) _ | .single true (.construct _) _ | .single true (.path _) _
  | .single true (.call _ _) _ | .single true (.neg _ _) _ => exact hwf.elim

theorem term_gives (t : Term) {c : Cursor} {ts : List Token} (hwf : t.WellFormed)
    (h : c.tokens = t.tokens ++ ts) (hname : ∀ u ∈ ts.head?, u.endsName = true)
    (hneg : t.isNeg = true → ∀ u ∈ ts.head?, u.endsExpr = true) :
    Gives c.term fun r => r.value.bare = t.bare ∧ r.next.tokens = ts := by
  match t with
  | .literal v _ =>
    have hread : Gives (c.take .expression literal?) fun r => r.value = v ∧ r.next.tokens = ts :=
      take_gives (literal?_token v) h
    rw [term, peek_of_tokens h]
    cases v <;>
    · refine hread.bind ?_
      rintro ⟨v', c₁, h₁⟩ ⟨rfl, hc₁⟩
      exact .pure ⟨rfl, hc₁⟩
  | .construct record =>
    rw [term, peek_of_tokens h]
    refine (expect_gives h).bind ?_
    rintro ⟨_, c₁, h₁⟩ hc₁
    refine (ident_gives "type name" hc₁).bind ?_
    rintro ⟨record', c₂, h₂⟩ ⟨hrecord, hc₂⟩
    exact .pure ⟨by simp [Term.bare, hrecord], hc₂⟩
  | .path [] => exact absurd rfl hwf
  | .path (x :: names) =>
    obtain ⟨hdot, hopen⟩ := head?_ne_of_endsName hname
    obtain ⟨hpeek, hsecond⟩ := peek_path h hopen
    rw [term, hpeek]
    dsimp only
    rw [if_neg hsecond]
    refine (path_gives (x :: names) "variable name" nofun h hdot).bind ?_
    rintro ⟨names', c₁, h₁⟩ ⟨hnames, hc₁⟩
    exact .pure ⟨by simp [Term.bare, hnames], hc₁⟩
  | .call fn args =>
    rw [term, peek_of_tokens h]
    dsimp only [Ident.token]
    rw [if_pos ((peekSecond_eq_some_iff h (by nofun)).mpr rfl)]
    refine (call_gives hwf (fun hne c' h' => args_gives args hne hwf h') h).bind ?_
    rintro ⟨⟨fn', args'⟩, c₁, h₁⟩ ⟨hfn, hargs, hc₁⟩
    exact .pure ⟨by simp [Term.bare, hfn, hargs], hc₁⟩
  | .neg operand _ =>
    rw [term, peek_of_tokens h]
    refine (expect_gives h).bind ?_
    rintro ⟨p, c₁, h₁⟩ hc₁
    refine (expr_gives operand hwf hc₁ (hneg rfl)).bind ?_
    rintro ⟨operand', c₂, h₂⟩ ⟨hoperand, hc₂⟩
    exact .pure ⟨by simp [Term.bare, hoperand], hc₂⟩
  | .paren inner =>
    rw [Term.tokens, List.cons_append, List.append_assoc] at h
    rw [term, peek_of_tokens h]
    refine (expect_gives h).bind ?_
    rintro ⟨_, c₁, h₁⟩ hc₁
    refine (expr_gives inner hwf hc₁ ?_).bind ?_
    · rintro _ ⟨⟩
      rfl
    · rintro ⟨inner', c₂, h₂⟩ ⟨hinner, hc₂⟩
      refine (expect_gives hc₂).bind ?_
      rintro ⟨_, c₃, h₃⟩ hc₃
      exact .pure ⟨by simp [Term.bare, hinner], hc₃⟩

theorem args_gives (args : List Expr) {c : Cursor} {ts : List Token} (hne : args ≠ [])
    (hwf : ArgsWellFormed args) (h : c.tokens = listTokens (argTokens args) ++ ts) :
    Gives c.args fun r => bareArgs r.value = bareArgs args ∧ r.next.tokens = ts := by
  match args with
  | [arg] =>
    rw [argTokens, argTokens, listTokens, List.append_assoc] at h
    rw [Cursor.args]
    refine (expr_gives arg hwf.1 h ?_).bind ?_
    · rintro _ ⟨⟩
      rfl
    · rintro ⟨arg', c₁, h₁⟩ ⟨harg, hc₁⟩
      dsimp only at harg hc₁ ⊢
      rw [if_neg (by rw [peek_of_tokens hc₁]; nofun)]
      refine (expect_gives hc₁).bind ?_
      rintro ⟨_, c₂, h₂⟩ hc₂
      exact .pure ⟨by simp [bareArgs, harg], hc₂⟩
  | arg :: next :: args =>
    rw [argTokens, argTokens, listTokens_cons_cons, ← argTokens, List.append_assoc] at h
    rw [Cursor.args]
    refine (expr_gives arg hwf.1 h ?_).bind ?_
    · rintro _ ⟨⟩
      rfl
    · rintro ⟨arg', c₁, h₁⟩ ⟨harg, hc₁⟩
      dsimp only at harg hc₁ ⊢
      rw [if_pos (peek_of_tokens hc₁)]
      refine (expect_gives hc₁).bind ?_
      rintro ⟨_, c₂, h₂⟩ hc₂
      refine (args_gives (next :: args) nofun hwf.2 hc₂).bind ?_
      rintro ⟨more, c₃, h₃⟩ ⟨hmore, hc₃⟩
      exact .pure ⟨by simp [bareArgs, harg, hmore], hc₃⟩

end

/-! ## Statements -/

theorem namedInit_gives {name : Ident} {init : Expr} {declared : Option TypeNote}
    (hwf : init.WellFormed) (h : c.tokens = name.token :: .symbol .assign :: (init.tokens ++ ts))
    (hends : ∀ u ∈ ts.head?, u.endsExpr = true) :
    Gives (c.namedInit declared) fun r =>
      r.value.name.bare = name.bare ∧ r.value.declared = declared ∧
        r.value.init.bare = init.bare ∧ r.next.tokens = ts := by
  refine (ident_gives "variable name" h).bind ?_
  rintro ⟨name', c₁, h₁⟩ ⟨hname, hc₁⟩
  refine (expect_gives hc₁).bind ?_
  rintro ⟨_, c₂, h₂⟩ hc₂
  refine (expr_gives init hwf hc₂ hends).bind ?_
  rintro ⟨init', c₃, h₃⟩ ⟨hinit, hc₃⟩
  exact .pure ⟨hname, rfl, hinit, hc₃⟩

theorem startsTyped_of_note {note : TypeNote} {name : Ident} (hn : note.OfVariable)
    (h : c.tokens = note.token :: name.token :: ts) : c.startsTyped = true := by
  have hsecond : c.peekSecond = some (.name name.text) :=
    (peekSecond_eq_some_iff h (by nofun)).mpr rfl
  unfold startsTyped
  rw [peek_of_tokens h, hsecond]
  obtain ⟨ty, p⟩ := note
  cases ty with
  | nil => exact absurd rfl hn.1
  | void => exact absurd rfl hn.2
  | int | double | bool | char | string | record => rfl

theorem startsTyped_of_name {name : Ident} (h : c.tokens = name.token :: .symbol .assign :: ts) :
    c.startsTyped = false := by
  have hsecond : c.peekSecond = some (.symbol .assign) :=
    (peekSecond_eq_some_iff h (by simp)).mpr rfl
  unfold startsTyped
  rw [peek_of_tokens h, hsecond]
  rfl

theorem binding_gives {b : Binding} (hwf : b.WellFormed) (h : c.tokens = b.tokens ++ ts)
    (hends : ∀ u ∈ ts.head?, u.endsExpr = true) :
    Gives c.binding fun r => r.value.bare = b.bare ∧ r.next.tokens = ts := by
  obtain ⟨name, declared, init⟩ := b
  obtain ⟨hdeclared, hinit⟩ := hwf
  unfold binding
  refine (expect_gives h).bind ?_
  rintro ⟨_, c₁, h₁⟩ hc₁
  dsimp only at hc₁ ⊢
  cases declared with
  | none =>
    rw [if_neg (by rw [startsTyped_of_name hc₁]; nofun)]
    refine (namedInit_gives hinit hc₁ hends).bind ?_
    rintro ⟨⟨name', declared, init'⟩, c₂, h₂⟩ ⟨hname, rfl, hinit', hc₂⟩
    exact .pure ⟨by simp [Binding.bare, hname, hinit'], hc₂⟩
  | some note =>
    rw [if_pos (startsTyped_of_note (hdeclared note rfl) hc₁)]
    refine (typeNote_gives (hdeclared note rfl) hc₁).bind ?_
    rintro ⟨note', c₂, h₂⟩ ⟨hnote, hc₂⟩
    refine (namedInit_gives hinit hc₂ hends).bind ?_
    rintro ⟨⟨name', declared, init'⟩, c₃, h₃⟩ ⟨hname, rfl, hinit', hc₃⟩
    exact .pure ⟨by simp [Binding.bare, hname, hnote, hinit'], hc₃⟩

theorem block_gives {body : List Stmt} (h : c.tokens = inBraces (stmtsTokens body) ++ ts)
    (hbody : ∀ c' : Cursor, c'.tokens = stmtsTokens body ++ .symbol .closeBrace :: ts →
      Gives c'.stmts fun r => bareStmts r.value = bareStmts body ∧ r.next.tokens = ts) :
    Gives c.block fun r => bareStmts r.value = bareStmts body ∧ r.next.tokens = ts := by
  rw [inBraces, List.cons_append, List.append_assoc] at h
  rw [block]
  refine (expect_gives h).bind ?_
  rintro ⟨_, c₁, h₁⟩ hc₁
  refine (hbody c₁ hc₁).bind ?_
  rintro ⟨body', c₂, h₂⟩ ⟨hbody', hc₂⟩
  exact .pure ⟨hbody', hc₂⟩

theorem endsExpr_inBraces (body : List Token) :
    ∀ u ∈ (inBraces body ++ ts).head?, u.endsExpr = true := by
  rintro _ ⟨⟩
  rfl

-- The induction is on the tree. What is asked of the tokens behind a statement holds of the next
-- statement of the block and of the closing brace.
mutual

theorem stmt_gives (s : Stmt) {c : Cursor} {ts : List Token} (hwf : s.WellFormed)
    (h : c.tokens = s.tokens ++ ts) (hends : ∀ u ∈ ts.head?, u.endsStmt = true)
    (hbare : s.isBareReturn = true → ∀ u ∈ ts.head?, u.beginsExpr = false) :
    Gives c.stmt fun r => r.value.bare = s.bare ∧ r.next.tokens = ts := by
  have hends' : ∀ u ∈ ts.head?, u.endsExpr = true :=
    fun u hu => Token.endsExpr_of_endsStmt (hends u hu)
  match s with
  | .declare b =>
    rw [stmt, peek_of_tokens h]
    refine (binding_gives hwf h hends').bind ?_
    rintro ⟨b', c₁, h₁⟩ ⟨hb, hc₁⟩
    exact .pure ⟨by simp [Stmt.bare, hb], hc₁⟩
  | .assign [] value => exact absurd rfl hwf.1
  | .assign (x :: names) value =>
    rw [Stmt.tokens, List.append_assoc] at h
    obtain ⟨hpeek, hsecond⟩ := peek_path h nofun
    rw [stmt, hpeek]
    dsimp only
    rw [if_neg hsecond]
    refine (path_gives (x :: names) "variable name" nofun h nofun).bind ?_
    rintro ⟨target', c₁, h₁⟩ ⟨htarget, hc₁⟩
    refine (expect_gives hc₁).bind ?_
    rintro ⟨_, c₂, h₂⟩ hc₂
    refine (expr_gives value hwf.2 hc₂ hends').bind ?_
    rintro ⟨value', c₃, h₃⟩ ⟨hvalue, hc₃⟩
    exact .pure ⟨by simp [Stmt.bare, htarget, hvalue], hc₃⟩
  | .cond bs =>
    obtain ⟨more, hmore⟩ := bs.exists_tokens_eq hwf.1
    rw [Stmt.tokens, hmore] at h
    rw [stmt, peek_of_tokens h]
    refine (expect_gives h).bind ?_
    rintro ⟨_, c₁, h₁⟩ hc₁
    refine (branches_gives bs .ifWord hwf.1 hwf.2 (by rw [hc₁, hmore]; rfl) hends).bind ?_
    rintro ⟨bs', c₂, h₂⟩ ⟨hbs, hc₂⟩
    exact .pure ⟨by simp [Stmt.bare, hbs], hc₂⟩
  | .loop test body =>
    rw [Stmt.tokens, List.cons_append, List.append_assoc] at h
    rw [stmt, peek_of_tokens h]
    refine (expect_gives h).bind ?_
    rintro ⟨_, c₁, h₁⟩ hc₁
    refine (expr_gives test hwf.1 hc₁ (endsExpr_inBraces _)).bind ?_
    rintro ⟨test', c₂, h₂⟩ ⟨htest, hc₂⟩
    refine (block_gives hc₂ fun c' h' => stmts_gives body hwf.2 h').bind ?_
    rintro ⟨body', c₃, h₃⟩ ⟨hbody, hc₃⟩
    exact .pure ⟨by simp [Stmt.bare, htest, hbody], hc₃⟩
  | .count var start direction stop body =>
    simp only [Stmt.tokens, List.cons_append, List.append_assoc] at h
    rw [stmt, peek_of_tokens h]
    refine (expect_gives h).bind ?_
    rintro ⟨_, c₁, h₁⟩ hc₁
    refine (ident_gives "loop variable" hc₁).bind ?_
    rintro ⟨var', c₂, h₂⟩ ⟨hvar, hc₂⟩
    refine (expect_gives hc₂).bind ?_
    rintro ⟨_, c₃, h₃⟩ hc₃
    refine (expr_gives start hwf.1 hc₃ ?_).bind ?_
    · rintro _ ⟨⟩
      cases direction <;> rfl
    · rintro ⟨start', c₄, h₄⟩ ⟨hstart, hc₄⟩
      refine (direction_gives hc₄).bind ?_
      rintro ⟨direction, c₅, h₅⟩ ⟨rfl, hc₅⟩
      refine (expr_gives stop hwf.2.1 hc₅ (endsExpr_inBraces _)).bind ?_
      rintro ⟨stop', c₆, h₆⟩ ⟨hstop, hc₆⟩
      refine (block_gives hc₆ fun c' h' => stmts_gives body hwf.2.2 h').bind ?_
      rintro ⟨body', c₇, h₇⟩ ⟨hbody, hc₇⟩
      exact .pure ⟨by simp [Stmt.bare, hvar, hstart, hstop, hbody], hc₇⟩
  | .ret none _ =>
    rw [stmt, peek_of_tokens h]
    refine (expect_gives h).bind ?_
    rintro ⟨p, c₁, h₁⟩ hc₁
    have hstarts : ¬ c₁.startsExpr = true := by
      rw [startsExpr_eq, Option.any_eq_true]
      rintro ⟨u, hu, hbegins⟩
      rw [hc₁] at hu
      rw [hbare rfl u hu] at hbegins
      cases hbegins
    dsimp only
    rw [if_neg hstarts]
    exact .pure ⟨rfl, hc₁⟩
  | .ret (some value) _ =>
    rw [stmt, peek_of_tokens h]
    refine (expect_gives h).bind ?_
    rintro ⟨p, c₁, h₁⟩ hc₁
    have hstarts : c₁.startsExpr = true := by
      obtain ⟨u, more, hu, hbegins⟩ := value.exists_tokens_eq hwf
      rw [startsExpr_eq, hc₁, hu]
      exact hbegins
    dsimp only at hc₁ ⊢
    rw [if_pos hstarts]
    refine (expr_gives value hwf hc₁ hends').bind ?_
    rintro ⟨value', c₂, h₂⟩ ⟨hvalue, hc₂⟩
    exact .pure ⟨by simp [Stmt.bare, hvalue], hc₂⟩
  | .delete name =>
    rw [stmt, peek_of_tokens h]
    refine (expect_gives h).bind ?_
    rintro ⟨_, c₁, h₁⟩ hc₁
    refine (ident_gives "variable name" hc₁).bind ?_
    rintro ⟨name', c₂, h₂⟩ ⟨hname, hc₂⟩
    exact .pure ⟨by simp [Stmt.bare, hname], hc₂⟩
  | .call fn args =>
    rw [stmt, peek_of_tokens h]
    dsimp only [Ident.token]
    rw [if_pos ((peekSecond_eq_some_iff h (by nofun)).mpr rfl)]
    refine (call_gives hwf (fun hne c' h' => args_gives args hne hwf h') h).bind ?_
    rintro ⟨⟨fn', args'⟩, c₁, h₁⟩ ⟨hfn, hargs, hc₁⟩
    exact .pure ⟨by simp [Stmt.bare, hfn, hargs], hc₁⟩

theorem branches_gives (bs : Branches) (word : Keyword) {c : Cursor} {ts : List Token}
    (htest : bs.hasTest = true) (hwf : bs.WellFormed)
    (h : .keyword word :: c.tokens = bs.tokens word ++ ts)
    (hends : ∀ u ∈ ts.head?, u.endsStmt = true) :
    Gives c.branches fun r => r.value.bare = bs.bare ∧ r.next.tokens = ts := by
  match bs with
  | .branch test body rest =>
    obtain ⟨hwf, hwf', hwf''⟩ := hwf
    simp only [Branches.tokens, List.cons_append, List.append_assoc, List.cons.injEq,
      true_and] at h
    rw [branches]
    refine (expr_gives test hwf h (endsExpr_inBraces _)).bind ?_
    rintro ⟨test', c₁, h₁⟩ ⟨htest', hc₁⟩
    refine (block_gives hc₁ fun c' h' => stmts_gives body hwf' h').bind ?_
    rintro ⟨body', c₂, h₂⟩ ⟨hbody, hc₂⟩
    dsimp only at htest' hbody hc₂ ⊢
    match rest with
    | .done =>
      split
      next hpeek =>
        rw [peek_eq_some_iff (by nofun), hc₂] at hpeek
        cases hends _ hpeek
      next hpeek =>
        rw [peek_eq_some_iff (by nofun), hc₂] at hpeek
        cases hends _ hpeek
      next => exact .pure ⟨by simp [Branches.bare, htest', hbody], hc₂⟩
    | .otherwise last =>
      rw [peek_of_tokens hc₂]
      refine (expect_gives hc₂).bind ?_
      rintro ⟨_, c₃, h₃⟩ hc₃
      refine (block_gives hc₃ fun c' h' => stmts_gives last hwf'' h').bind ?_
      rintro ⟨last', c₄, h₄⟩ ⟨hlast, hc₄⟩
      exact .pure ⟨by simp [Branches.bare, htest', hbody, hlast], hc₄⟩
    | .branch test₂ body₂ rest₂ =>
      rw [peek_of_tokens hc₂]
      refine (expect_gives hc₂).bind ?_
      rintro ⟨_, c₃, h₃⟩ hc₃
      refine (branches_gives (.branch test₂ body₂ rest₂) .elifWord rfl hwf''
        (by rw [hc₃]; rfl) hends).bind ?_
      rintro ⟨rest', c₄, h₄⟩ ⟨hrest, hc₄⟩
      exact .pure ⟨by rw [Branches.bare, htest', hbody, hrest, ← Branches.bare], hc₄⟩

theorem stmts_gives (ss : List Stmt) {c : Cursor} {ts : List Token} (hwf : StmtsWellFormed ss)
    (h : c.tokens = stmtsTokens ss ++ .symbol .closeBrace :: ts) :
    Gives c.stmts fun r => bareStmts r.value = bareStmts ss ∧ r.next.tokens = ts := by
  match ss with
  | [] =>
    rw [stmts, peek_of_tokens h]
    refine (expect_gives h).bind ?_
    rintro ⟨_, c₁, h₁⟩ hc₁
    exact .pure ⟨rfl, hc₁⟩
  | s :: more =>
    obtain ⟨hwf, hnext, hwf'⟩ := hwf
    rw [stmtsTokens, List.append_assoc] at h
    obtain ⟨u, tail, hu, hbegins, _⟩ := s.exists_tokens_eq hwf
    have hpeek : c.peek = some u := by
      rw [hu] at h
      exact peek_of_tokens h
    rw [stmts]
    split
    next hclose =>
      cases hpeek.symm.trans hclose
      cases hbegins
    next hnone => cases hpeek.symm.trans hnone
    next heof =>
      cases hpeek.symm.trans heof
      cases hbegins
    next =>
      refine (stmt_gives s hwf h (endsStmt_head hwf') fun hreturn =>
        not_beginsExpr_head hwf' (hnext hreturn)).bind ?_
      rintro ⟨s', c₁, h₁⟩ ⟨hs, hc₁⟩
      refine (stmts_gives more hwf' hc₁).bind ?_
      rintro ⟨more', c₂, h₂⟩ ⟨hmore, hc₂⟩
      exact .pure ⟨by simp [bareStmts, hs, hmore], hc₂⟩

end

/-! ## Declarations -/

theorem fields_gives (fields : List Binding) {c : Cursor} (hwf : ∀ b ∈ fields, b.WellFormed)
    (h : c.tokens = fields.flatMap Binding.tokens ++ .symbol .closeBrace :: ts) :
    Gives c.fields fun r =>
      r.value.map Binding.bare = fields.map Binding.bare ∧ r.next.tokens = ts := by
  induction fields generalizing c with
  | nil =>
    rw [Cursor.fields, if_neg (by simp [peek_of_tokens h])]
    refine (expect_gives h).bind ?_
    rintro ⟨_, c₁, h₁⟩ hc₁
    exact .pure ⟨rfl, hc₁⟩
  | cons b more ih =>
    obtain ⟨hb, hmore⟩ := List.forall_mem_cons.mp hwf
    rw [List.flatMap_cons, List.append_assoc] at h
    rw [Cursor.fields, if_pos (peek_of_tokens h)]
    refine (binding_gives hb h ?_).bind ?_
    · cases more <;>
      · rintro _ ⟨⟩
        rfl
    · rintro ⟨b', c₁, h₁⟩ ⟨hb', hc₁⟩
      refine (ih hmore hc₁).bind ?_
      rintro ⟨more', c₂, h₂⟩ ⟨hmore', hc₂⟩
      exact .pure ⟨by simp [hb', hmore'], hc₂⟩

theorem recordDecl_gives {d : RecordDecl} (hwf : d.WellFormed) (h : c.tokens = d.tokens ++ ts) :
    Gives c.recordDecl fun r => r.value.bare = d.bare ∧ r.next.tokens = ts := by
  simp only [RecordDecl.tokens, inBraces, List.cons_append, List.append_assoc] at h
  unfold recordDecl
  refine (expect_gives h).bind ?_
  rintro ⟨_, c₁, h₁⟩ hc₁
  refine (ident_gives "type name" hc₁).bind ?_
  rintro ⟨name, c₂, h₂⟩ ⟨hname, hc₂⟩
  refine (expect_gives hc₂).bind ?_
  rintro ⟨_, c₃, h₃⟩ hc₃
  refine (fields_gives d.fields hwf hc₃).bind ?_
  rintro ⟨fields, c₄, h₄⟩ ⟨hfields, hc₄⟩
  exact .pure ⟨by simp [RecordDecl.bare, hname, hfields], hc₄⟩

theorem params_gives (params : List Param) {c : Cursor} (hne : params ≠ [])
    (hwf : ∀ x ∈ params, x.note.OfVariable)
    (h : c.tokens = listTokens (params.map Param.tokens) ++ ts) :
    Gives c.params fun r =>
      r.value.map Param.bare = params.map Param.bare ∧ r.next.tokens = ts := by
  match params with
  | [x] =>
    rw [Cursor.params]
    refine (typeNote_gives (hwf x (.head _)) h).bind ?_
    rintro ⟨note, c₁, h₁⟩ ⟨hnote, hc₁⟩
    refine (ident_gives "parameter name" hc₁).bind ?_
    rintro ⟨name, c₂, h₂⟩ ⟨hname, hc₂⟩
    dsimp only at hc₂ ⊢
    rw [if_neg (by simp [peek_of_tokens hc₂])]
    refine (expect_gives hc₂).bind ?_
    rintro ⟨_, c₃, h₃⟩ hc₃
    exact .pure ⟨by simp [Param.bare, hnote, hname], hc₃⟩
  | x :: y :: params =>
    obtain ⟨hx, hmore⟩ := List.forall_mem_cons.mp hwf
    rw [Cursor.params]
    refine (typeNote_gives hx h).bind ?_
    rintro ⟨note, c₁, h₁⟩ ⟨hnote, hc₁⟩
    refine (ident_gives "parameter name" hc₁).bind ?_
    rintro ⟨name, c₂, h₂⟩ ⟨hname, hc₂⟩
    dsimp only at hc₂ ⊢
    rw [if_pos (peek_of_tokens hc₂)]
    refine (expect_gives hc₂).bind ?_
    rintro ⟨_, c₃, h₃⟩ hc₃
    refine (params_gives (y :: params) (List.cons_ne_nil _ _) hmore hc₃).bind ?_
    rintro ⟨more, c₄, h₄⟩ ⟨hmore', hc₄⟩
    exact .pure ⟨by rw [List.map_cons, hmore', Param.bare, hnote, hname]; rfl, hc₄⟩

theorem paramList_gives {params : List Param} (hwf : ∀ x ∈ params, x.note.OfVariable)
    (h : c.tokens = listTokens (params.map Param.tokens) ++ ts) :
    Gives c.paramList fun r =>
      r.value.map Param.bare = params.map Param.bare ∧ r.next.tokens = ts := by
  unfold paramList
  cases params with
  | nil =>
    rw [if_pos (peek_of_tokens h)]
    refine (expect_gives h).bind ?_
    rintro ⟨_, c₁, h₁⟩ hc₁
    exact .pure ⟨rfl, hc₁⟩
  | cons x params =>
    have hpeek : c.peek ≠ some (.symbol .closeParen) := by
      obtain ⟨more, hmore⟩ := exists_listTokens_eq x.tokens (params.map Param.tokens)
      rw [List.map_cons, hmore] at h
      rw [peek_of_tokens h, Ne, Option.some.injEq]
      exact x.note.ty.token_ne_symbol .closeParen
    rw [if_neg hpeek]
    exact params_gives (x :: params) nofun hwf h

theorem funDecl_gives {f : FunDecl} (hwf : f.WellFormed) (h : c.tokens = f.tokens ++ ts) :
    Gives c.funDecl fun r => r.value.bare = f.bare ∧ r.next.tokens = ts := by
  obtain ⟨hnil, hparams, hbody⟩ := hwf
  simp only [FunDecl.tokens, callTokens, List.cons_append, List.append_assoc] at h
  unfold funDecl
  refine (expect_gives h).bind ?_
  rintro ⟨_, c₁, h₁⟩ hc₁
  refine (returnNote_gives hnil hc₁).bind ?_
  rintro ⟨ret, c₂, h₂⟩ ⟨hret, hc₂⟩
  refine (ident_gives "function name" hc₂).bind ?_
  rintro ⟨name, c₃, h₃⟩ ⟨hname, hc₃⟩
  refine (expect_gives hc₃).bind ?_
  rintro ⟨_, c₄, h₄⟩ hc₄
  refine (paramList_gives hparams hc₄).bind ?_
  rintro ⟨params, c₅, h₅⟩ ⟨hparams', hc₅⟩
  refine (block_gives hc₅ fun c' h' => stmts_gives f.body hbody h').bind ?_
  rintro ⟨body, c₆, h₆⟩ ⟨hbody', hc₆⟩
  exact .pure ⟨by simp [FunDecl.bare, hret, hname, hparams', hbody'], hc₆⟩

theorem program_gives {p : Program} (hwf : p.WellFormed) (h : p.Spells c.tokens) :
    Gives c.program fun p' => p'.bare = p.bare := by
  obtain ⟨records, funs⟩ := p
  obtain ⟨hrecords, hfuns⟩ := hwf
  dsimp only [Program.Spells] at h hrecords hfuns
  generalize hxs : records.map RecordDecl.tokens = xs at h
  generalize hys : funs.map FunDecl.tokens = ys at h
  generalize hts : c.tokens = ts at h
  induction h generalizing records funs c with
  | nil =>
    cases List.map_eq_nil_iff.mp hxs
    cases List.map_eq_nil_iff.mp hys
    rw [program]
    rcases tokens_eq_nil_iff.mp hts with h | h <;> rw [h] <;> exact .pure rfl
  | left x hrest ih =>
    obtain ⟨d, records, rfl, rfl, rfl⟩ := List.map_eq_cons_iff.mp hxs
    obtain ⟨hd, hrecords⟩ := List.forall_mem_cons.mp hrecords
    rw [program, peek_of_tokens hts]
    refine (recordDecl_gives hd hts).bind ?_
    rintro ⟨d', c₁, h₁⟩ ⟨hd', hc₁⟩
    refine (ih records funs hrecords hfuns rfl hys hc₁).bind ?_
    intro later hlater
    obtain ⟨hrecords', hfuns'⟩ := Program.mk.inj hlater
    exact .pure (by simp [Program.bare, hd', hrecords', hfuns'])
  | right y hrest ih =>
    obtain ⟨f, funs, rfl, rfl, rfl⟩ := List.map_eq_cons_iff.mp hys
    obtain ⟨hf, hfuns⟩ := List.forall_mem_cons.mp hfuns
    rw [program, peek_of_tokens hts]
    refine (funDecl_gives hf hts).bind ?_
    rintro ⟨f', c₁, h₁⟩ ⟨hf', hc₁⟩
    refine (ih records funs hrecords hfuns hxs rfl hc₁).bind ?_
    intro later hlater
    obtain ⟨hrecords', hfuns'⟩ := Program.mk.inj hlater
    exact .pure (by simp [Program.bare, hf', hrecords', hfuns'])

end Cursor

/-! ## Whole programs -/

/-- The tokens that count: those that are no comments and stand before the end of the file. -/
def sourceTokens (ts : List Lexeme) : List Token :=
  ((dropComments ts).map Lexeme.token).takeWhile (· ≠ .eof)

/-- Reading succeeds exactly on the written forms of well-formed programs, each of which it takes
for the program that is written, and fails on every other row of tokens. -/
theorem Program.parse_accepts_exactly_the_written_programs (ts : List Lexeme) :
    (∀ p : Program, (∃ p', Program.parse ts = .ok p' ∧ p'.bare = p.bare) ↔
      p.WellFormed ∧ p.Spells (sourceTokens ts)) ∧
    ((∃ e, Program.parse ts = .error e) ↔
      ¬ ∃ p : Program, p.WellFormed ∧ p.Spells (sourceTokens ts)) := by
  have hiff : ∀ p : Program, (∃ p', Program.parse ts = .ok p' ∧ p'.bare = p.bare) ↔
      p.WellFormed ∧ p.Spells (sourceTokens ts) := by
    intro p
    constructor
    · rintro ⟨p', hparse, hbare⟩
      obtain ⟨hwf, hspells⟩ := (Cursor.start ts).program_yields p' hparse
      rw [← Program.wellFormed_bare, ← Program.spells_bare, ← hbare]
      exact ⟨p'.wellFormed_bare.mpr hwf, (p'.spells_bare _).mpr hspells⟩
    · rintro ⟨hwf, hspells⟩
      exact Cursor.program_gives hwf hspells
  refine ⟨hiff, ?_⟩
  constructor
  · rintro ⟨e, he⟩ ⟨p, hp⟩
    obtain ⟨p', hp', _⟩ := (hiff p).mpr hp
    cases he.symm.trans hp'
  · intro hnone
    cases hparse : Program.parse ts with
    | error e => exact ⟨e, rfl⟩
    | ok p => exact absurd ⟨p, (hiff p).mp ⟨p, hparse, rfl⟩⟩ hnone

end RecordLang

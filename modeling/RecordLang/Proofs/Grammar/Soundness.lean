import RecordLang.Proofs.Grammar.Reading

/-! # What has been read is a written form of the result

If a reader succeeds, then its value is a well-formed tree, and the tokens that it has taken are the
written form of that tree. Two readers stop only where they must: no operator stands behind an
expression, and no name behind a bare `return`.
-/

namespace RecordLang

theorem Stmt.exists_tokens_eq_name {s : Stmt} (hs : s.WellFormed) (h : s.beginsWithName = true) :
    ∃ x ts, s.tokens = .name x :: ts := by
  match s with
  | .assign (x :: names) value =>
    obtain ⟨more, h⟩ := exists_pathTokens_eq x names
    exact ⟨x.text, _, by rw [Stmt.tokens, h]; rfl⟩
  | .assign [] value => exact absurd rfl hs.1
  | .call fn args => exact ⟨fn.text, _, rfl⟩

namespace Cursor

theorem binOp?_eq_some {t : Token} {op : BinOp} (h : binOp? t = some op) : t = op.token := by
  unfold binOp? at h
  split at h <;> cases h <;> rfl

theorem literal?_eq_some {t : Token} {v : Literal} (h : literal? t = some v) : t = v.token := by
  cases t <;> cases h <;> rfl

theorem peek_bind_binOp? (c : Cursor) : c.peek.bind binOp? = c.tokens.head?.bind binOp? := by
  cases ht : c.tokens with
  | nil =>
    rcases tokens_eq_nil_iff.mp ht with h | h <;> rw [h] <;> rfl
  | cons t ts => rw [peek_of_tokens ht]; rfl

mutual

theorem expr_yields (c : Cursor) :
    Yields c.expr fun r => c.tokens = r.value.tokens ++ r.next.tokens ∧ r.value.WellFormed ∧
      r.next.tokens.head?.bind binOp? = none := by
  rw [expr]
  split
  next =>
    refine (expect_yields (.keyword .notWord) nofun).bind ?_
    rintro ⟨p, c₁, h₁⟩ hnot
    refine (expr_yields c₁).bind ?_
    rintro ⟨inner, c₂, h₂⟩ ⟨hinner, hwf, hend⟩
    refine .pure ⟨?_, hwf, hend⟩
    simp [Expr.tokens, hnot, hinner]
  next =>
    refine (term_yields c).bind ?_
    rintro ⟨first, c₁, h₁⟩ ⟨hfirst, hwf, hneg⟩
    dsimp only at hfirst hneg ⊢
    rw [peek_bind_binOp?]
    split
    next op hop =>
      obtain ⟨t, ht, hop'⟩ := Option.bind_eq_some_iff.mp hop
      obtain ⟨ts, hts⟩ := List.head?_eq_some_iff.mp ht
      refine (take_gives (by rfl) hts).yields.bind ?_
      rintro ⟨p, c₂, h₂⟩ ⟨_, hc₂⟩
      refine (expr_yields c₂).bind ?_
      rintro ⟨rest, c₃, h₃⟩ ⟨hrest, hwf', hend⟩
      -- An operand of `neg` would have taken the operator.
      have hnotNeg : first.isNeg = false := by
        rw [Bool.eq_false_iff]
        intro hisNeg
        rw [hneg hisNeg] at hop
        cases hop
      refine .pure ⟨?_, ⟨rfl, hnotNeg, hwf, hwf'⟩, hend⟩
      simp [Expr.tokens, hfirst, hts, ← hc₂, hrest, binOp?_eq_some hop']
    next hend =>
      exact .pure ⟨hfirst, hwf, hend⟩
termination_by (c.rest.length, 2)

theorem term_yields (c : Cursor) :
    Yields c.term fun r => c.tokens = r.value.tokens ++ r.next.tokens ∧ r.value.WellFormed ∧
      (r.value.isNeg = true → r.next.tokens.head?.bind binOp? = none) := by
  rw [term]
  split
  next =>
    refine (expect_yields (.symbol .openParen) nofun).bind ?_
    rintro ⟨_, c₁, h₁⟩ hopen
    refine (expr_yields c₁).bind ?_
    rintro ⟨inner, c₂, h₂⟩ ⟨hinner, hwf, _⟩
    refine (expect_yields (.symbol .closeParen) nofun).bind ?_
    rintro ⟨_, c₃, h₃⟩ hclose
    refine .pure ⟨?_, hwf, nofun⟩
    simp [Term.tokens, hopen, hinner, hclose]
  next =>
    refine (expect_yields (.keyword .newWord) nofun).bind ?_
    rintro ⟨_, c₁, h₁⟩ hnew
    refine (ident_yields "type name").bind ?_
    rintro ⟨name, c₂, h₂⟩ hname
    refine .pure ⟨?_, trivial, nofun⟩
    simp [Term.tokens, hnew, hname]
  next =>
    refine (expect_yields (.keyword .negWord) nofun).bind ?_
    rintro ⟨p, c₁, h₁⟩ hneg
    refine (expr_yields c₁).bind ?_
    rintro ⟨operand, c₂, h₂⟩ ⟨hoperand, hwf, hend⟩
    refine .pure ⟨?_, hwf, fun _ => hend⟩
    simp [Term.tokens, hneg, hoperand]
  next =>
    split
    next =>
      refine (call_yields c).bind ?_
      rintro ⟨⟨fn, args⟩, c₁, h₁⟩ ⟨hcall, hwf⟩
      exact .pure ⟨hcall, hwf, nofun⟩
    next =>
      refine (path_yields c "variable name").bind ?_
      rintro ⟨names, c₁, h₁⟩ ⟨hnames, hne⟩
      exact .pure ⟨hnames, hne, nofun⟩
  next =>
    refine (take_yields rfl).bind ?_
    rintro ⟨value, c₁, h₁⟩ ⟨t, ht, htokens⟩
    refine .pure ⟨?_, trivial, nofun⟩
    simp [Term.tokens, htokens, literal?_eq_some ht]
termination_by (c.rest.length, 1)

theorem call_yields (c : Cursor) :
    Yields c.call fun r => c.tokens = callTokens r.value.1 (argTokens r.value.2) ++ r.next.tokens ∧
      ArgsWellFormed r.value.2 := by
  rw [call]
  refine (ident_yields "function name").bind ?_
  rintro ⟨fn, c₁, h₁⟩ hfn
  refine (expect_yields (.symbol .openParen) nofun).bind ?_
  rintro ⟨_, c₂, h₂⟩ hopen
  dsimp only at hfn hopen ⊢
  split
  next =>
    refine (expect_yields (.symbol .closeParen) nofun).bind ?_
    rintro ⟨_, c₃, h₃⟩ hclose
    refine .pure ⟨?_, trivial⟩
    simp [callTokens, argTokens, listTokens, hfn, hopen, hclose]
  next =>
    refine (args_yields c₂).bind ?_
    rintro ⟨args, c₃, h₃⟩ ⟨hargs, hwf, _⟩
    refine .pure ⟨?_, hwf⟩
    simp [callTokens, hfn, hopen, hargs]
termination_by (c.rest.length, 0)

theorem args_yields (c : Cursor) :
    Yields c.args fun r => c.tokens = listTokens (argTokens r.value) ++ r.next.tokens ∧
      ArgsWellFormed r.value ∧ r.value ≠ [] := by
  rw [args]
  refine (expr_yields c).bind ?_
  rintro ⟨arg, c₁, h₁⟩ ⟨harg, hwf, _⟩
  dsimp only at harg ⊢
  split
  next =>
    refine (expect_yields (.symbol .comma) nofun).bind ?_
    rintro ⟨_, c₂, h₂⟩ hcomma
    refine (args_yields c₂).bind ?_
    rintro ⟨more, c₃, h₃⟩ ⟨hmore, hwf', hne⟩
    obtain ⟨next, more, rfl⟩ := List.exists_cons_of_ne_nil hne
    refine .pure ⟨?_, ⟨hwf, hwf'⟩, nofun⟩
    simp [argTokens, listTokens_cons_cons, harg, hcomma, hmore]
  next =>
    refine (expect_yields (.symbol .closeParen) nofun).bind ?_
    rintro ⟨_, c₂, h₂⟩ hclose
    refine .pure ⟨?_, ⟨hwf, trivial⟩, nofun⟩
    simp [argTokens, listTokens, harg, hclose]
termination_by (c.rest.length, 3)

end

theorem namedInit_yields (c : Cursor) (declared : Option TypeNote) :
    Yields (c.namedInit declared) fun r =>
      c.tokens = r.value.name.token :: .symbol .assign :: (r.value.init.tokens ++ r.next.tokens) ∧
        r.value.declared = declared ∧ r.value.init.WellFormed := by
  refine (ident_yields "variable name").bind ?_
  rintro ⟨name, c₁, h₁⟩ hname
  refine (expect_yields (.symbol .assign) nofun).bind ?_
  rintro ⟨_, c₂, h₂⟩ hassign
  refine (expr_yields c₂).bind ?_
  rintro ⟨init, c₃, h₃⟩ ⟨hinit, hwf, _⟩
  refine .pure ⟨?_, rfl, hwf⟩
  simp [hname, hassign, hinit]

theorem binding_yields (c : Cursor) :
    Yields c.binding fun r => c.tokens = r.value.tokens ++ r.next.tokens ∧ r.value.WellFormed := by
  refine (expect_yields (.keyword .varWord) (by simp)).bind ?_
  rintro ⟨_, c₁, h₁⟩ hvar
  dsimp only
  split
  next =>
    refine typeNote_yields.bind ?_
    rintro ⟨note, c₂, h₂⟩ ⟨hnote, hvariable⟩
    refine (namedInit_yields c₂ (some note)).bind ?_
    rintro ⟨⟨name, declared, init⟩, c₃, h₃⟩ ⟨hinit, hdeclared, hwf⟩
    cases hdeclared
    refine .pure ⟨?_, ?_, hwf⟩
    · simp [Binding.tokens, hvar, hnote, hinit]
    · rintro _ ⟨⟩
      exact hvariable
  next =>
    refine (namedInit_yields c₁ none).bind ?_
    rintro ⟨⟨name, declared, init⟩, c₂, h₂⟩ ⟨hinit, hdeclared, hwf⟩
    cases hdeclared
    refine .pure ⟨?_, by simp, hwf⟩
    simp [Binding.tokens, hvar, hinit]

theorem head?_ne_name_of_startsExpr {c : Cursor} (h : ¬ c.startsExpr = true) (x : String) :
    c.tokens.head? ≠ some (.name x) := by
  intro hx
  have hpeek : c.peek = some (.name x) := (peek_eq_some_iff (by nofun)).mpr hx
  exact h (by simp [startsExpr, hpeek])

mutual

theorem stmt_yields (c : Cursor) :
    Yields c.stmt fun r => c.tokens = r.value.tokens ++ r.next.tokens ∧ r.value.WellFormed ∧
      (r.value.isBareReturn = true → ∀ x, r.next.tokens.head? ≠ some (.name x)) := by
  rw [stmt]
  split
  next =>
    refine (binding_yields c).bind ?_
    rintro ⟨b, c₁, h₁⟩ ⟨hb, hwf⟩
    exact .pure ⟨hb, hwf, nofun⟩
  next =>
    refine (expect_yields (.keyword .ifWord) nofun).bind ?_
    rintro ⟨_, c₁, h₁⟩ hif
    refine (branches_yields c₁ .ifWord).bind ?_
    rintro ⟨branches, c₂, h₂⟩ ⟨hbranches, htest, hwf⟩
    exact .pure ⟨hif.trans hbranches, ⟨htest, hwf⟩, nofun⟩
  next =>
    refine (expect_yields (.keyword .whileWord) nofun).bind ?_
    rintro ⟨_, c₁, h₁⟩ hwhile
    refine (expr_yields c₁).bind ?_
    rintro ⟨test, c₂, h₂⟩ ⟨htest, hwf, _⟩
    refine (block_yields c₂).bind ?_
    rintro ⟨body, c₃, h₃⟩ ⟨hbody, hwf'⟩
    refine .pure ⟨?_, ⟨hwf, hwf'⟩, nofun⟩
    simp [Stmt.tokens, hwhile, htest, hbody]
  next =>
    refine (expect_yields (.keyword .forWord) nofun).bind ?_
    rintro ⟨_, c₁, h₁⟩ hfor
    refine (ident_yields "loop variable").bind ?_
    rintro ⟨var, c₂, h₂⟩ hvar
    refine (expect_yields (.keyword .fromWord) nofun).bind ?_
    rintro ⟨_, c₃, h₃⟩ hfrom
    refine (expr_yields c₃).bind ?_
    rintro ⟨start, c₄, h₄⟩ ⟨hstart, hwf, _⟩
    refine direction_yields.bind ?_
    rintro ⟨direction, c₅, h₅⟩ hdirection
    refine (expr_yields c₅).bind ?_
    rintro ⟨stop, c₆, h₆⟩ ⟨hstop, hwf', _⟩
    refine (block_yields c₆).bind ?_
    rintro ⟨body, c₇, h₇⟩ ⟨hbody, hwf''⟩
    refine .pure ⟨?_, ⟨hwf, hwf', hwf''⟩, nofun⟩
    simp [Stmt.tokens, hfor, hvar, hfrom, hstart, hdirection, hstop, hbody]
  next =>
    refine (expect_yields (.keyword .returnWord) nofun).bind ?_
    rintro ⟨p, c₁, h₁⟩ hreturn
    dsimp only
    split
    next =>
      refine (expr_yields c₁).bind ?_
      rintro ⟨value, c₂, h₂⟩ ⟨hvalue, hwf, _⟩
      refine .pure ⟨?_, hwf, nofun⟩
      simp [Stmt.tokens, hreturn, hvalue]
    next hstarts =>
      exact .pure ⟨hreturn, trivial, fun _ => head?_ne_name_of_startsExpr hstarts⟩
  next =>
    refine (expect_yields (.keyword .deleteWord) nofun).bind ?_
    rintro ⟨_, c₁, h₁⟩ hdelete
    refine (ident_yields "variable name").bind ?_
    rintro ⟨name, c₂, h₂⟩ hname
    refine .pure ⟨?_, trivial, nofun⟩
    simp [Stmt.tokens, hdelete, hname]
  next =>
    split
    next =>
      refine (call_yields c).bind ?_
      rintro ⟨⟨fn, args⟩, c₁, h₁⟩ ⟨hcall, hwf⟩
      exact .pure ⟨hcall, hwf, nofun⟩
    next =>
      refine (path_yields c "variable name").bind ?_
      rintro ⟨target, c₁, h₁⟩ ⟨htarget, hne⟩
      refine (expect_yields (.symbol .assign) nofun).bind ?_
      rintro ⟨_, c₂, h₂⟩ hassign
      refine (expr_yields c₂).bind ?_
      rintro ⟨value, c₃, h₃⟩ ⟨hvalue, hwf, _⟩
      refine .pure ⟨?_, ⟨hne, hwf⟩, nofun⟩
      simp [Stmt.tokens, htarget, hassign, hvalue]
  next => exact yields_error
termination_by (c.rest.length, 0)

theorem branches_yields (c : Cursor) (word : Keyword) :
    Yields c.branches fun r => .keyword word :: c.tokens = r.value.tokens word ++ r.next.tokens ∧
      r.value.hasTest = true ∧ r.value.WellFormed := by
  rw [branches]
  refine (expr_yields c).bind ?_
  rintro ⟨test, c₁, h₁⟩ ⟨htest, hwf, _⟩
  refine (block_yields c₁).bind ?_
  rintro ⟨body, c₂, h₂⟩ ⟨hbody, hwf'⟩
  dsimp only
  split
  next =>
    refine (expect_yields (.keyword .elifWord) nofun).bind ?_
    rintro ⟨_, c₃, h₃⟩ helif
    refine (branches_yields c₃ .elifWord).bind ?_
    rintro ⟨rest, c₄, h₄⟩ ⟨hrest, _, hwf''⟩
    refine .pure ⟨?_, rfl, hwf, hwf', hwf''⟩
    simp [Branches.tokens, htest, hbody, helif, hrest]
  next =>
    refine (expect_yields (.keyword .elseWord) nofun).bind ?_
    rintro ⟨_, c₃, h₃⟩ helse
    refine (block_yields c₃).bind ?_
    rintro ⟨last, c₄, h₄⟩ ⟨hlast, hwf''⟩
    refine .pure ⟨?_, rfl, hwf, hwf', hwf''⟩
    simp [Branches.tokens, htest, hbody, helse, hlast]
  next =>
    refine .pure ⟨?_, rfl, hwf, hwf', trivial⟩
    simp [Branches.tokens, htest, hbody]
termination_by (c.rest.length, 0)

theorem block_yields (c : Cursor) :
    Yields c.block fun r => c.tokens = inBraces (stmtsTokens r.value) ++ r.next.tokens ∧
      StmtsWellFormed r.value := by
  rw [block]
  refine (expect_yields (.symbol .openBrace) nofun).bind ?_
  rintro ⟨_, c₁, h₁⟩ hopen
  refine (stmts_yields c₁).bind ?_
  rintro ⟨body, c₂, h₂⟩ ⟨hbody, hwf⟩
  refine .pure ⟨?_, hwf⟩
  simp [inBraces, hopen, hbody]
termination_by (c.rest.length, 0)

theorem stmts_yields (c : Cursor) :
    Yields c.stmts fun r =>
      c.tokens = stmtsTokens r.value ++ .symbol .closeBrace :: r.next.tokens ∧
        StmtsWellFormed r.value := by
  rw [stmts]
  split
  next =>
    refine (expect_yields (.symbol .closeBrace) nofun).bind ?_
    rintro ⟨_, c₁, h₁⟩ hclose
    exact .pure ⟨hclose, trivial⟩
  next => exact yields_error
  next => exact yields_error
  next =>
    refine (stmt_yields c).bind ?_
    rintro ⟨first, c₁, h₁⟩ ⟨hfirst, hwf, hbare⟩
    refine (stmts_yields c₁).bind ?_
    rintro ⟨more, c₂, h₂⟩ ⟨hmore, hwf'⟩
    refine .pure ⟨?_, hwf, ?_, hwf'⟩
    · simp [stmtsTokens, hfirst, hmore]
    · -- A name would have been read as the value that is returned.
      intro hreturn s hs
      obtain ⟨more, rfl⟩ := List.head?_eq_some_iff.mp hs
      rw [Bool.eq_false_iff]
      intro hname
      obtain ⟨x, ts, hx⟩ := s.exists_tokens_eq_name hwf'.1 hname
      exact hbare hreturn x (by simp [hmore, stmtsTokens, hx])
termination_by (c.rest.length, 1)

end

theorem fields_yields (c : Cursor) :
    Yields c.fields fun r =>
      c.tokens = r.value.flatMap Binding.tokens ++ .symbol .closeBrace :: r.next.tokens ∧
        ∀ b ∈ r.value, b.WellFormed := by
  rw [fields]
  split
  next =>
    refine (binding_yields c).bind ?_
    rintro ⟨field, c₁, h₁⟩ ⟨hfield, hwf⟩
    refine (fields_yields c₁).bind ?_
    rintro ⟨more, c₂, h₂⟩ ⟨hmore, hwf'⟩
    refine .pure ⟨?_, List.forall_mem_cons.mpr ⟨hwf, hwf'⟩⟩
    simp [hfield, hmore]
  next =>
    refine (expect_yields (.symbol .closeBrace) nofun).bind ?_
    rintro ⟨_, c₁, h₁⟩ hclose
    exact .pure ⟨hclose, nofun⟩
termination_by c.rest.length

theorem recordDecl_yields (c : Cursor) :
    Yields c.recordDecl fun r =>
      c.tokens = r.value.tokens ++ r.next.tokens ∧ r.value.WellFormed := by
  refine (expect_yields (.keyword .typeWord) nofun).bind ?_
  rintro ⟨_, c₁, h₁⟩ htype
  refine (ident_yields "type name").bind ?_
  rintro ⟨name, c₂, h₂⟩ hname
  refine (expect_yields (.symbol .openBrace) nofun).bind ?_
  rintro ⟨_, c₃, h₃⟩ hopen
  refine (fields_yields c₃).bind ?_
  rintro ⟨fields, c₄, h₄⟩ ⟨hfields, hwf⟩
  refine .pure ⟨?_, hwf⟩
  simp [RecordDecl.tokens, inBraces, htype, hname, hopen, hfields]

theorem params_yields (c : Cursor) :
    Yields c.params fun r =>
      c.tokens = listTokens (r.value.map Param.tokens) ++ r.next.tokens ∧
        (∀ x ∈ r.value, x.note.OfVariable) ∧ r.value ≠ [] := by
  rw [params]
  refine typeNote_yields.bind ?_
  rintro ⟨note, c₁, h₁⟩ ⟨hnote, hvariable⟩
  refine (ident_yields "parameter name").bind ?_
  rintro ⟨name, c₂, h₂⟩ hname
  dsimp only
  split
  next =>
    refine (expect_yields (.symbol .comma) nofun).bind ?_
    rintro ⟨_, c₃, h₃⟩ hcomma
    refine (params_yields c₃).bind ?_
    rintro ⟨more, c₄, h₄⟩ ⟨hmore, hvariables, hne⟩
    obtain ⟨next, more, rfl⟩ := List.exists_cons_of_ne_nil hne
    refine .pure ⟨?_, List.forall_mem_cons.mpr ⟨hvariable, hvariables⟩, nofun⟩
    simp [listTokens_cons_cons, Param.tokens, hnote, hname, hcomma, hmore]
  next =>
    refine (expect_yields (.symbol .closeParen) nofun).bind ?_
    rintro ⟨_, c₃, h₃⟩ hclose
    refine .pure ⟨?_, List.forall_mem_cons.mpr ⟨hvariable, nofun⟩, nofun⟩
    simp [listTokens, Param.tokens, hnote, hname, hclose]
termination_by c.rest.length

theorem paramList_yields (c : Cursor) :
    Yields c.paramList fun r =>
      c.tokens = listTokens (r.value.map Param.tokens) ++ r.next.tokens ∧
        ∀ x ∈ r.value, x.note.OfVariable := by
  unfold paramList
  split
  next =>
    refine (expect_yields (.symbol .closeParen) nofun).bind ?_
    rintro ⟨_, c₁, h₁⟩ hclose
    exact .pure ⟨hclose, nofun⟩
  next => exact (params_yields c).imp fun r h => ⟨h.1, h.2.1⟩

theorem funDecl_yields (c : Cursor) :
    Yields c.funDecl fun r => c.tokens = r.value.tokens ++ r.next.tokens ∧ r.value.WellFormed := by
  refine (expect_yields (.keyword .funWord) nofun).bind ?_
  rintro ⟨_, c₁, h₁⟩ hfun
  refine returnNote_yields.bind ?_
  rintro ⟨ret, c₂, h₂⟩ ⟨hret, hnil⟩
  refine (ident_yields "function name").bind ?_
  rintro ⟨name, c₃, h₃⟩ hname
  refine (expect_yields (.symbol .openParen) nofun).bind ?_
  rintro ⟨_, c₄, h₄⟩ hopen
  refine (paramList_yields c₄).bind ?_
  rintro ⟨params, c₅, h₅⟩ ⟨hparams, hvariables⟩
  refine (block_yields c₅).bind ?_
  rintro ⟨body, c₆, h₆⟩ ⟨hbody, hwf⟩
  refine .pure ⟨?_, hnil, hvariables, hwf⟩
  simp [FunDecl.tokens, callTokens, hfun, hret, hname, hopen, hparams, hbody]

/-- A program that has been read is well-formed, and its declarations are the tokens read. -/
theorem program_yields (c : Cursor) :
    Yields c.program fun p => p.WellFormed ∧ p.Spells c.tokens := by
  rw [program]
  split
  next h =>
    rw [tokens_eq_nil_iff.mpr (.inl h)]
    exact .pure ⟨⟨by simp, by simp⟩, .nil⟩
  next h =>
    rw [tokens_eq_nil_iff.mpr (.inr h)]
    exact .pure ⟨⟨by simp, by simp⟩, .nil⟩
  next =>
    refine (recordDecl_yields c).bind ?_
    rintro ⟨d, c₁, h₁⟩ ⟨hd, hwf⟩
    refine (program_yields c₁).bind ?_
    rintro later ⟨hlater, hspells⟩
    refine .pure ⟨⟨List.forall_mem_cons.mpr ⟨hwf, hlater.records⟩, hlater.funs⟩, ?_⟩
    rw [hd]
    exact .left _ hspells
  next =>
    refine (funDecl_yields c).bind ?_
    rintro ⟨f, c₁, h₁⟩ ⟨hf, hwf⟩
    refine (program_yields c₁).bind ?_
    rintro later ⟨hlater, hspells⟩
    refine .pure ⟨⟨hlater.records, List.forall_mem_cons.mpr ⟨hwf, hlater.funs⟩⟩, ?_⟩
    rw [hf]
    exact .right _ hspells
  next => exact yields_error
termination_by c.rest.length

end Cursor

end RecordLang

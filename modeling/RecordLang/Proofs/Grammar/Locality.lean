import RecordLang.Program.Parse
import RecordLang.Proofs.Except

/-! # Errors and the tokens they depend on

A reader looks at no token behind the one that ends it: the one it refuses, or the first one that it
leaves. So two rows of tokens are read alike as far as they have their tokens in common, and a token
that is refused once is refused whatever follows it.
-/

namespace RecordLang

def ParseError.Reports (e : ParseError) (ts : List Lexeme) : Prop :=
  ∀ l, ts[e.index]? = some l →
    e.pos = l.pos ∧ (e.found = some l.token ∨ l.token = .eof ∧ e.found = none)

namespace Cursor

def Common (n : Nat) (ts ts' : List Lexeme) : Prop := ts'.take n = ts.take n

def In (c : Cursor) (ts : List Lexeme) : Prop := c.rest = ts.drop c.read

/-- The same place in another row. -/
def on (c : Cursor) (ts : List Lexeme) : Cursor := { c with rest := ts.drop c.read }

variable {α β : Type} {n k : Nat} {ts ts' : List Lexeme} {c : Cursor}

/-! ## Places in a row -/

theorem on_in : (c.on ts).In ts := rfl

theorem Common.getElem? (h : Common n ts ts') {i : Nat} (hi : i < n) : ts'[i]? = ts[i]? := by
  have hget := congrArg (·[i]?) h
  simpa only [List.getElem?_take, hi, if_true] using hget

theorem In.peek (hc : c.In ts) : c.peek = ts[c.read]?.map Lexeme.token := by
  rw [Cursor.peek, hc, List.head?_drop]

theorem In.peekSecond (hc : c.In ts) : c.peekSecond = ts[c.read + 1]?.map Lexeme.token := by
  rw [Cursor.peekSecond, hc, List.tail_drop, List.head?_drop]

theorem In.pos (hc : c.In ts) : c.pos = (ts[c.read]?.map Lexeme.pos).getD c.last := by
  rw [← List.head?_drop, ← hc, Cursor.pos]
  cases c.rest <;> rfl

theorem In.next {l : Lexeme} {rest : List Lexeme} (hc : c.In ts) (hrest : c.rest = l :: rest) :
    (⟨rest, l.pos, c.read + 1⟩ : Cursor).In ts := by
  rw [In, ← List.drop_drop, ← hc, hrest]
  rfl

theorem In.reports (hc : c.In ts) (wanted : Wanted) :
    (⟨c.pos, wanted, c.peek, c.read⟩ : ParseError).Reports ts := by
  intro l hl
  refine ⟨?_, .inl ?_⟩
  · rw [hc.pos, hl]
    rfl
  · rw [hc.peek, hl]
    rfl

theorem In.reports_end (hc : c.In ts) (hpeek : c.peek = none ∨ c.peek = some .eof)
    (wanted : Wanted) : (⟨c.pos, wanted, none, c.read⟩ : ParseError).Reports ts := by
  intro l hl
  rw [hc.peek, hl] at hpeek
  refine ⟨?_, .inr ⟨?_, rfl⟩⟩
  · rw [hc.pos, hl]
    rfl
  · rcases hpeek with hpeek | hpeek
    · cases hpeek
    · exact Option.some.inj hpeek

section Common

variable (h : Common n ts ts') (hc : c.In ts)
include h hc

theorem on_peek (hn : c.read < n) : (c.on ts').peek = c.peek := by
  rw [on_in.peek, hc.peek]
  exact congrArg _ (h.getElem? hn)

theorem on_peekSecond (hn : c.read + 1 < n) : (c.on ts').peekSecond = c.peekSecond := by
  rw [on_in.peekSecond, hc.peekSecond]
  exact congrArg _ (h.getElem? hn)

theorem on_pos (hn : c.read < n) : (c.on ts').pos = c.pos := by
  rw [on_in.pos, hc.pos]
  exact congrArg (fun o => (Option.map Lexeme.pos o).getD c.last) (h.getElem? hn)

theorem on_rest {l : Lexeme} {rest : List Lexeme} (hrest : c.rest = l :: rest) (hn : c.read < n) :
    (c.on ts').rest = l :: ts'.drop (c.read + 1) := by
  have hl : ts'[c.read]? = some l := by
    rw [h.getElem? hn, ← List.head?_drop, ← hc, hrest]
    rfl
  obtain ⟨hi, rfl⟩ := List.getElem?_eq_some_iff.mp hl
  exact List.drop_eq_getElem_cons hi

end Common

/-! ## Runs in two rows -/

/-- What a reader returns, without the proof that it has taken a token. -/
def outcome (x : Parse α c) : Except ParseError (α × Cursor) := x.map fun r => (r.value, r.next)

theorem outcome_eq_error {x : Parse α c} {e : ParseError} (h : outcome x = .error e) :
    x = .error e := by
  cases x with
  | error e' =>
    cases h
    rfl
  | ok r => cases h

theorem outcome_eq_ok {x : Parse α c} {a : α} {d : Cursor} (h : outcome x = .ok (a, d)) :
    ∃ hd, x = .ok ⟨a, d, hd⟩ := by
  cases x with
  | error e => cases h
  | ok r =>
    cases h
    exact ⟨r.shorter, rfl⟩

/-- Reading in `ts` has come to `x`. If this is an error, then not before the index `k`, and if it
is one at the first `n` tokens, then reading in `ts'` has come to the same with `y`. -/
def ErrorLocal (n : Nat) (ts : List Lexeme) (k : Nat) (x y : Except ParseError α) : Prop :=
  ∀ e, x = .error e → k ≤ e.index ∧ e.Reports ts ∧ (e.index < n → y = .error e)

/-- Reading in `ts` has come to `x`, not before the index `k`. If it has ended at one of the first
`n` tokens, then reading in `ts'` has come to the same with `y`. -/
structure Local (n : Nat) (ts ts' : List Lexeme) (k : Nat) (x y : Except ParseError (α × Cursor)) :
    Prop where
  error : ErrorLocal n ts k x y
  ok : ∀ a d, x = .ok (a, d) → k ≤ d.read ∧ d.In ts ∧ (d.read < n → y = .ok (a, d.on ts'))

namespace Local

variable {x y : Except ParseError (α × Cursor)} {e e' : Cursor} {ι : Prop}

theorem mono {j : Nat} (h : Local n ts ts' k x y) (hj : j ≤ k) : Local n ts ts' j x y :=
  ⟨fun e he => (h.error e he).imp_left (Nat.le_trans hj),
    fun a d hd => (h.ok a d hd).imp_left (Nat.le_trans hj)⟩

theorem congr {z : Except ParseError (α × Cursor)} (h : Local n ts ts' k x z)
    (hy : k < n → ∃ _ : ι, y = z) : Local n ts ts' k x y := by
  constructor
  · intro e he
    obtain ⟨hk, hr, hsame⟩ := h.error e he
    refine ⟨hk, hr, fun hlt => ?_⟩
    obtain ⟨_, rfl⟩ := hy (Nat.lt_of_le_of_lt hk hlt)
    exact hsame hlt
  · intro a d hd
    obtain ⟨hk, hin, hsame⟩ := h.ok a d hd
    refine ⟨hk, hin, fun hlt => ?_⟩
    obtain ⟨_, rfl⟩ := hy (Nat.lt_of_le_of_lt hk hlt)
    exact hsame hlt

theorem intro {z : Except ParseError (α × Cursor)}
    (h : ∀ y, (k < n → ∃ _ : True, y = z) → Local n ts ts' k x y) : Local n ts ts' k x z :=
  h z fun _ => ⟨trivial, rfl⟩

theorem refuse {err : ParseError} (hk : k ≤ err.index) (hr : err.Reports ts)
    (hy : err.index < n → y = .error err) : Local n ts ts' k (.error err) y := by
  constructor
  · rintro _ ⟨⟩
    exact ⟨hk, hr, hy⟩
  · rintro _ _ ⟨⟩

theorem accept {a : α} {d : Cursor} (hk : k ≤ d.read) (hin : d.In ts)
    (hy : d.read < n → y = .ok (a, d.on ts')) : Local n ts ts' k (.ok (a, d)) y := by
  constructor
  · rintro _ ⟨⟩
  · rintro _ _ ⟨⟩
    exact ⟨hk, hin, hy⟩

theorem pure {a : α} {d : Cursor} {hd : d.rest.length < e.rest.length}
    {g : ι → (d.on ts').rest.length < e'.rest.length} (hin : d.In ts)
    (hy : d.read < n → ∃ i, y = outcome (c := e') (.ok ⟨a, d.on ts', g i⟩)) :
    Local n ts ts' d.read (outcome (c := e) (.ok ⟨a, d, hd⟩)) y := by
  refine .accept (Nat.le_refl _) hin ?_
  intro hlt
  obtain ⟨i, rfl⟩ := hy hlt
  rfl

/-- One reader behind another. That the readers in `ts'` take tokens is known only where they have
been found to read the same, so the proofs of it come with `i`. -/
theorem bind {c' : Cursor} {x : Parse α c} {x' : Parse α c'} {f : Parsed α c → Parse β e}
    {g : ι → Parsed α c' → Parse β e'} {y : Except ParseError (β × Cursor)}
    (hx : Local n ts ts' k (outcome x) (outcome x'))
    (hy : k < n → ∃ i, y = outcome (x' >>= g i))
    (hf : ∀ a d hd y, k ≤ d.read → d.In ts →
      (d.read < n → ∃ i : ι ∧ (d.on ts').rest.length < c'.rest.length,
        y = outcome (g i.1 ⟨a, d.on ts', i.2⟩)) →
      Local n ts ts' d.read (outcome (f ⟨a, d, hd⟩)) y) :
    Local n ts ts' k (outcome (x >>= f)) y := by
  cases x with
  | error err =>
    obtain ⟨hk, hr, hsame⟩ := hx.error err rfl
    refine .refuse hk hr ?_
    intro hlt
    obtain ⟨i, rfl⟩ := hy (by omega)
    rw [outcome_eq_error (hsame hlt)]
    rfl
  | ok r =>
    obtain ⟨a, d, hd⟩ := r
    obtain ⟨hk, hin, hsame⟩ := hx.ok a d rfl
    refine (hf a d hd y hk hin ?_).mono hk
    intro hlt
    obtain ⟨i, rfl⟩ := hy (by omega)
    obtain ⟨hd', hx'⟩ := outcome_eq_ok (hsame hlt)
    refine ⟨⟨i, hd'⟩, ?_⟩
    rw [hx']
    rfl

end Local

/-! ## One token -/

theorem take_eq_refuse {wanted : Wanted} {f : Token → Option α}
    (h : ∀ t, c.peek = some t → f t = none) : c.take wanted f = c.refuse wanted := by
  unfold take
  split
  next => rfl
  next l rest hrest =>
    rw [h l.token (by rw [peek, hrest]; rfl)]

theorem outcome_take_eq_ok {wanted : Wanted} {f : Token → Option α} {l : Lexeme}
    {rest : List Lexeme} {a : α} (hrest : c.rest = l :: rest) (ha : f l.token = some a) :
    outcome (c.take wanted f) = .ok (a, ⟨rest, l.pos, c.read + 1⟩) := by
  unfold take
  split
  next hnil => cases hnil.symm.trans hrest
  next l' rest' hrest' =>
    cases hrest'.symm.trans hrest
    rw [ha]
    rfl

/-- A reader that begins at `c` gets to the index `k`, if it begins with a name. -/
def Clears (c : Cursor) (k : Nat) : Prop :=
  k ≤ c.read ∨ k = c.read + 1 ∧ ∃ s, c.peek = some (.name s)

theorem clears_self (c : Cursor) : c.Clears c.read := .inl (Nat.le_refl _)

section Readers

variable (h : Common n ts ts')
include h

theorem refuse_local (hc : c.In ts) (wanted : Wanted) :
    Local n ts ts' c.read (outcome (c.refuse wanted : Parse α c))
      (outcome ((c.on ts').refuse wanted : Parse α (c.on ts'))) := by
  refine .refuse (Nat.le_refl _) (hc.reports wanted) ?_
  intro hlt
  rw [refuse, on_peek h hc hlt, on_pos h hc hlt]
  rfl

/-- A reader of one token. Where it is known to take the next token, it gets behind it. -/
theorem take_local (hc : c.In ts) (wanted : Wanted) {f f' : Token → Option α}
    (hf : c.read < n → f' = f)
    (hk : k ≤ c.read ∨ k = c.read + 1 ∧ ∃ t, c.peek = some t ∧ (f t).isSome) :
    Local n ts ts' k (outcome (c.take wanted f)) (outcome ((c.on ts').take wanted f')) := by
  have hrefused (hnone : ∀ t, c.peek = some t → f t = none) :
      Local n ts ts' k (outcome (c.take wanted f)) (outcome ((c.on ts').take wanted f')) := by
    have hle : k ≤ c.read := by
      rcases hk with hk | ⟨_, t, ht, hsome⟩
      · exact hk
      · rw [hnone t ht] at hsome
        cases hsome
    rw [take_eq_refuse hnone]
    refine ((refuse_local h hc wanted).congr fun hlt => ⟨trivial, ?_⟩).mono hle
    rw [hf hlt, take_eq_refuse (by rwa [on_peek h hc hlt])]
  cases hrest : c.rest with
  | nil => exact hrefused (by simp [peek, hrest])
  | cons l rest =>
    cases ha : f l.token with
    | none => exact hrefused (by simp [peek, hrest, ha])
    | some a =>
      have hle : k ≤ c.read + 1 := by omega
      rw [outcome_take_eq_ok hrest ha]
      refine .accept hle (hc.next hrest) ?_
      intro hlt
      have hlt' : c.read < n := Nat.lt_of_succ_lt hlt
      rw [hf hlt', outcome_take_eq_ok (on_rest h hc hrest hlt') ha]
      rfl

theorem expect_local (hc : c.In ts) (t : Token) :
    Local n ts ts' c.read (outcome (c.expect t)) (outcome ((c.on ts').expect t)) := by
  refine take_local h hc _ ?_ (.inl (Nat.le_refl _))
  intro hlt
  rw [on_pos h hc hlt]

theorem ident_local (hc : c.In ts) (hk : c.Clears k) (role : String) :
    Local n ts ts' k (outcome (c.ident role)) (outcome ((c.on ts').ident role)) := by
  refine take_local h hc _ ?_ (hk.imp_right ?_)
  · intro hlt
    rw [on_pos h hc hlt]
  · rintro ⟨hk, s, hs⟩
    exact ⟨hk, _, hs, rfl⟩

theorem typeNote_local (hc : c.In ts) (hk : c.Clears k) :
    Local n ts ts' k (outcome c.typeNote) (outcome (c.on ts').typeNote) := by
  refine take_local h hc _ ?_ (hk.imp_right ?_)
  · intro hlt
    rw [on_pos h hc hlt]
  · rintro ⟨hk, s, hs⟩
    exact ⟨hk, _, hs, rfl⟩

theorem returnNote_local (hc : c.In ts) :
    Local n ts ts' c.read (outcome c.returnNote) (outcome (c.on ts').returnNote) := by
  refine .intro fun y hy => ?_
  unfold returnNote at hy ⊢
  simp +contextual only [on_peek h hc, on_pos h hc] at hy
  split
  next hvoid =>
    simp only [hvoid, if_true] at hy
    exact (take_local h hc _ (fun _ => rfl) (.inl (Nat.le_refl _))).congr hy
  next hvoid =>
    simp only [hvoid, if_false] at hy
    exact (typeNote_local h hc c.clears_self).congr hy

theorem direction_local (hc : c.In ts) :
    Local n ts ts' c.read (outcome c.direction) (outcome (c.on ts').direction) :=
  take_local h hc _ (fun _ => rfl) (.inl (Nat.le_refl _))

/-! ## Expressions -/

theorem path_local (c : Cursor) {k : Nat} (hc : c.In ts) (hk : c.Clears k) (role : String) :
    Local n ts ts' k (outcome (c.path role)) (outcome ((c.on ts').path role)) := by
  refine .intro fun y hy => ?_
  rw [path] at hy ⊢
  refine .bind (ident_local h hc hk role) hy ?_
  rintro x c₁ h₁ y - hc₁ hy
  simp +contextual only [on_peek h hc₁] at hy
  dsimp only
  split
  next hdot =>
    simp only [hdot, if_true] at hy
    refine .bind (expect_local h hc₁ _) hy ?_
    rintro p c₂ h₂ y - hc₂ hy
    refine .bind (path_local c₂ hc₂ c₂.clears_self _) hy ?_
    rintro names c₃ h₃ y - hc₃ hy
    exact .pure hc₃ hy
  next hdot =>
    simp only [hdot, if_false] at hy
    exact .pure hc₁ hy
termination_by c.rest.length

mutual

theorem expr_local (c : Cursor) (hc : c.In ts) :
    Local n ts ts' c.read (outcome c.expr) (outcome (c.on ts').expr) := by
  refine .intro fun y hy => ?_
  rw [expr] at hy ⊢
  simp +contextual only [on_peek h hc, on_pos h hc] at hy
  split
  next hnot =>
    simp only [hnot, if_true] at hy
    refine .bind (expect_local h hc _) hy ?_
    rintro p c₁ h₁ y - hc₁ hy
    refine .bind (expr_local c₁ hc₁) hy ?_
    rintro inner c₂ h₂ y - hc₂ hy
    exact .pure hc₂ hy
  next hnot =>
    simp only [hnot, if_false] at hy
    refine .bind (term_local c hc) hy ?_
    rintro first c₁ h₁ y - hc₁ hy
    simp +contextual only [on_peek h hc₁, on_pos h hc₁] at hy
    dsimp only
    split
    next op hop =>
      simp only [hop] at hy
      refine .bind (take_local h hc₁ _ (fun _ => rfl) (.inl (Nat.le_refl _))) hy ?_
      rintro p c₂ h₂ y - hc₂ hy
      refine .bind (expr_local c₂ hc₂) hy ?_
      rintro rest c₃ h₃ y - hc₃ hy
      exact .pure hc₃ hy
    next hop =>
      simp only [hop] at hy
      exact .pure hc₁ hy
termination_by (c.rest.length, 2)

theorem term_local (c : Cursor) (hc : c.In ts) :
    Local n ts ts' c.read (outcome c.term) (outcome (c.on ts').term) := by
  refine .intro fun y hy => ?_
  rw [term] at hy ⊢
  simp +contextual only [on_peek h hc, on_pos h hc] at hy
  revert hy
  split <;> intro hy
  next =>
    refine .bind (expect_local h hc _) hy ?_
    rintro _ c₁ h₁ y - hc₁ hy
    refine .bind (expr_local c₁ hc₁) hy ?_
    rintro inner c₂ h₂ y - hc₂ hy
    refine .bind (expect_local h hc₂ _) hy ?_
    rintro _ c₃ h₃ y - hc₃ hy
    exact .pure hc₃ hy
  next =>
    refine .bind (expect_local h hc _) hy ?_
    rintro _ c₁ h₁ y - hc₁ hy
    refine .bind (ident_local h hc₁ c₁.clears_self _) hy ?_
    rintro name c₂ h₂ y - hc₂ hy
    exact .pure hc₂ hy
  next =>
    refine .bind (expect_local h hc _) hy ?_
    rintro p c₁ h₁ y - hc₁ hy
    refine .bind (expr_local c₁ hc₁) hy ?_
    rintro operand c₂ h₂ y - hc₂ hy
    exact .pure hc₂ hy
  next s hs =>
    -- The token behind a name is looked at, but then the name is taken either way.
    have hk : c.Clears (c.read + 1) := .inr ⟨rfl, s, hs⟩
    refine Local.mono ?_ (Nat.le_succ _)
    replace hy (hlt : c.read + 1 < n) := hy (Nat.lt_of_succ_lt hlt)
    simp +contextual only [on_peekSecond h hc] at hy
    split
    next hopen =>
      simp only [hopen, if_true] at hy
      refine .bind (call_local c hc hk) hy ?_
      rintro ⟨fn, args⟩ c₁ h₁ y - hc₁ hy
      exact .pure hc₁ hy
    next hopen =>
      simp only [hopen, if_false] at hy
      refine .bind (path_local h c hc hk _) hy ?_
      rintro names c₁ h₁ y - hc₁ hy
      exact .pure hc₁ hy
  next =>
    refine .bind (take_local h hc _ (fun _ => rfl) (.inl (Nat.le_refl _))) hy ?_
    rintro value c₁ h₁ y - hc₁ hy
    exact .pure hc₁ hy
termination_by (c.rest.length, 1)

theorem call_local (c : Cursor) {k : Nat} (hc : c.In ts) (hk : c.Clears k) :
    Local n ts ts' k (outcome c.call) (outcome (c.on ts').call) := by
  refine .intro fun y hy => ?_
  rw [call] at hy ⊢
  refine .bind (ident_local h hc hk _) hy ?_
  rintro fn c₁ h₁ y - hc₁ hy
  refine .bind (expect_local h hc₁ _) hy ?_
  rintro _ c₂ h₂ y - hc₂ hy
  simp +contextual only [on_peek h hc₂] at hy
  dsimp only
  split
  next hclose =>
    simp only [hclose, if_true] at hy
    refine .bind (expect_local h hc₂ _) hy ?_
    rintro _ c₃ h₃ y - hc₃ hy
    exact .pure hc₃ hy
  next hclose =>
    simp only [hclose, if_false] at hy
    refine .bind (args_local c₂ hc₂) hy ?_
    rintro args c₃ h₃ y - hc₃ hy
    exact .pure hc₃ hy
termination_by (c.rest.length, 0)

theorem args_local (c : Cursor) (hc : c.In ts) :
    Local n ts ts' c.read (outcome c.args) (outcome (c.on ts').args) := by
  refine .intro fun y hy => ?_
  rw [args] at hy ⊢
  refine .bind (expr_local c hc) hy ?_
  rintro arg c₁ h₁ y - hc₁ hy
  simp +contextual only [on_peek h hc₁] at hy
  dsimp only
  split
  next hcomma =>
    simp only [hcomma, if_true] at hy
    refine .bind (expect_local h hc₁ _) hy ?_
    rintro _ c₂ h₂ y - hc₂ hy
    refine .bind (args_local c₂ hc₂) hy ?_
    rintro more c₃ h₃ y - hc₃ hy
    exact .pure hc₃ hy
  next hcomma =>
    simp only [hcomma, if_false] at hy
    refine .bind (expect_local h hc₁ _) hy ?_
    rintro _ c₂ h₂ y - hc₂ hy
    exact .pure hc₂ hy
termination_by (c.rest.length, 3)

end

/-! ## Statements -/

theorem on_startsExpr (hc : c.In ts) (hn : c.read < n) : (c.on ts').startsExpr = c.startsExpr := by
  unfold startsExpr
  rw [on_peek h hc hn]

/-- Whether a type is written can depend on two tokens, but then the first of them is a name, and no
reader fails there. -/
theorem exists_clears_startsTyped (hc : c.In ts) :
    ∃ k, c.Clears k ∧ c.read ≤ k ∧ (k < n → (c.on ts').startsTyped = c.startsTyped) := by
  by_cases hname : ∃ s, c.peek = some (.name s)
  · refine ⟨c.read + 1, .inr ⟨rfl, hname⟩, Nat.le_succ _, ?_⟩
    intro hlt
    unfold startsTyped
    rw [on_peek h hc (Nat.lt_of_succ_lt hlt), on_peekSecond h hc hlt]
  · refine ⟨c.read, c.clears_self, Nat.le_refl _, ?_⟩
    intro hlt
    unfold startsTyped
    rw [on_peek h hc hlt]
    cases hpeek : c.peek with
    | none => rfl
    | some t =>
      cases t with
      | name s => exact absurd ⟨s, hpeek⟩ hname
      | _ => rfl

theorem namedInit_local (hc : c.In ts) (hk : c.Clears k) (declared : Option TypeNote) :
    Local n ts ts' k (outcome (c.namedInit declared))
      (outcome ((c.on ts').namedInit declared)) := by
  refine .intro fun y hy => ?_
  unfold namedInit at hy ⊢
  refine .bind (ident_local h hc hk _) hy ?_
  rintro name c₁ h₁ y - hc₁ hy
  refine .bind (expect_local h hc₁ _) hy ?_
  rintro _ c₂ h₂ y - hc₂ hy
  refine .bind (expr_local h c₂ hc₂) hy ?_
  rintro init c₃ h₃ y - hc₃ hy
  exact .pure hc₃ hy

theorem binding_local (hc : c.In ts) :
    Local n ts ts' c.read (outcome c.binding) (outcome (c.on ts').binding) := by
  refine .intro fun y hy => ?_
  unfold binding at hy ⊢
  refine .bind (expect_local h hc _) hy ?_
  rintro _ c₁ h₁ y - hc₁ hy
  obtain ⟨k, hk, hle, htyped⟩ := exists_clears_startsTyped h hc₁
  refine Local.mono ?_ hle
  replace hy (hlt : k < n) := hy (Nat.lt_of_le_of_lt hle hlt)
  simp +contextual only [htyped] at hy
  dsimp only
  split
  next hstarts =>
    simp only [hstarts, if_true] at hy
    refine .bind (typeNote_local h hc₁ hk) hy ?_
    rintro note c₂ h₂ y - hc₂ hy
    refine .bind (namedInit_local h hc₂ c₂.clears_self _) hy ?_
    rintro b c₃ h₃ y - hc₃ hy
    exact .pure hc₃ hy
  next hstarts =>
    simp only [hstarts] at hy
    refine .bind (namedInit_local h hc₁ hk _) hy ?_
    rintro b c₂ h₂ y - hc₂ hy
    exact .pure hc₂ hy

mutual

theorem stmt_local (c : Cursor) (hc : c.In ts) :
    Local n ts ts' c.read (outcome c.stmt) (outcome (c.on ts').stmt) := by
  refine .intro fun y hy => ?_
  rw [stmt] at hy ⊢
  simp +contextual only [on_peek h hc] at hy
  revert hy
  split <;> intro hy
  next =>
    refine .bind (binding_local h hc) hy ?_
    rintro b c₁ h₁ y - hc₁ hy
    exact .pure hc₁ hy
  next =>
    refine .bind (expect_local h hc _) hy ?_
    rintro _ c₁ h₁ y - hc₁ hy
    refine .bind (branches_local c₁ hc₁) hy ?_
    rintro branches c₂ h₂ y - hc₂ hy
    exact .pure hc₂ hy
  next =>
    refine .bind (expect_local h hc _) hy ?_
    rintro _ c₁ h₁ y - hc₁ hy
    refine .bind (expr_local h c₁ hc₁) hy ?_
    rintro test c₂ h₂ y - hc₂ hy
    refine .bind (block_local c₂ hc₂) hy ?_
    rintro body c₃ h₃ y - hc₃ hy
    exact .pure hc₃ hy
  next =>
    refine .bind (expect_local h hc _) hy ?_
    rintro _ c₁ h₁ y - hc₁ hy
    refine .bind (ident_local h hc₁ c₁.clears_self _) hy ?_
    rintro var c₂ h₂ y - hc₂ hy
    refine .bind (expect_local h hc₂ _) hy ?_
    rintro _ c₃ h₃ y - hc₃ hy
    refine .bind (expr_local h c₃ hc₃) hy ?_
    rintro start c₄ h₄ y - hc₄ hy
    refine .bind (direction_local h hc₄) hy ?_
    rintro direction c₅ h₅ y - hc₅ hy
    refine .bind (expr_local h c₅ hc₅) hy ?_
    rintro stop c₆ h₆ y - hc₆ hy
    refine .bind (block_local c₆ hc₆) hy ?_
    rintro body c₇ h₇ y - hc₇ hy
    exact .pure hc₇ hy
  next =>
    refine .bind (expect_local h hc _) hy ?_
    rintro p c₁ h₁ y - hc₁ hy
    simp +contextual only [on_startsExpr h hc₁] at hy
    dsimp only
    split
    next hstarts =>
      simp only [hstarts, if_true] at hy
      refine .bind (expr_local h c₁ hc₁) hy ?_
      rintro value c₂ h₂ y - hc₂ hy
      exact .pure hc₂ hy
    next hstarts =>
      simp only [hstarts] at hy
      exact .pure hc₁ hy
  next =>
    refine .bind (expect_local h hc _) hy ?_
    rintro _ c₁ h₁ y - hc₁ hy
    refine .bind (ident_local h hc₁ c₁.clears_self _) hy ?_
    rintro name c₂ h₂ y - hc₂ hy
    exact .pure hc₂ hy
  next s hs =>
    have hk : c.Clears (c.read + 1) := .inr ⟨rfl, s, hs⟩
    refine Local.mono ?_ (Nat.le_succ _)
    replace hy (hlt : c.read + 1 < n) := hy (Nat.lt_of_succ_lt hlt)
    simp +contextual only [on_peekSecond h hc] at hy
    split
    next hopen =>
      simp only [hopen, if_true] at hy
      refine .bind (call_local h c hc hk) hy ?_
      rintro ⟨fn, args⟩ c₁ h₁ y - hc₁ hy
      exact .pure hc₁ hy
    next hopen =>
      simp only [hopen, if_false] at hy
      refine .bind (path_local h c hc hk _) hy ?_
      rintro target c₁ h₁ y - hc₁ hy
      refine .bind (expect_local h hc₁ _) hy ?_
      rintro _ c₂ h₂ y - hc₂ hy
      refine .bind (expr_local h c₂ hc₂) hy ?_
      rintro value c₃ h₃ y - hc₃ hy
      exact .pure hc₃ hy
  next => exact (refuse_local h hc _).congr hy
termination_by (c.rest.length, 0)

theorem branches_local (c : Cursor) (hc : c.In ts) :
    Local n ts ts' c.read (outcome c.branches) (outcome (c.on ts').branches) := by
  refine .intro fun y hy => ?_
  rw [branches] at hy ⊢
  refine .bind (expr_local h c hc) hy ?_
  rintro test c₁ h₁ y - hc₁ hy
  refine .bind (block_local c₁ hc₁) hy ?_
  rintro body c₂ h₂ y - hc₂ hy
  simp +contextual only [on_peek h hc₂] at hy
  dsimp only
  revert hy
  split <;> intro hy
  next =>
    refine .bind (expect_local h hc₂ _) hy ?_
    rintro _ c₃ h₃ y - hc₃ hy
    refine .bind (branches_local c₃ hc₃) hy ?_
    rintro rest c₄ h₄ y - hc₄ hy
    exact .pure hc₄ hy
  next =>
    refine .bind (expect_local h hc₂ _) hy ?_
    rintro _ c₃ h₃ y - hc₃ hy
    refine .bind (block_local c₃ hc₃) hy ?_
    rintro last c₄ h₄ y - hc₄ hy
    exact .pure hc₄ hy
  next => exact .pure hc₂ hy
termination_by (c.rest.length, 0)

theorem block_local (c : Cursor) (hc : c.In ts) :
    Local n ts ts' c.read (outcome c.block) (outcome (c.on ts').block) := by
  refine .intro fun y hy => ?_
  rw [block] at hy ⊢
  refine .bind (expect_local h hc _) hy ?_
  rintro _ c₁ h₁ y - hc₁ hy
  refine .bind (stmts_local c₁ hc₁) hy ?_
  rintro body c₂ h₂ y - hc₂ hy
  exact .pure hc₂ hy
termination_by (c.rest.length, 0)

theorem stmts_local (c : Cursor) (hc : c.In ts) :
    Local n ts ts' c.read (outcome c.stmts) (outcome (c.on ts').stmts) := by
  refine .intro fun y hy => ?_
  rw [stmts] at hy ⊢
  simp +contextual only [on_peek h hc, on_pos h hc] at hy
  revert hy
  split <;> intro hy
  next =>
    refine .bind (expect_local h hc _) hy ?_
    rintro _ c₁ h₁ y - hc₁ hy
    exact .pure hc₁ hy
  next hpeek =>
    refine .refuse (Nat.le_refl _) (hc.reports_end (.inl hpeek) _) ?_
    exact fun hlt => (hy hlt).2
  next hpeek =>
    refine .refuse (Nat.le_refl _) (hc.reports_end (.inr hpeek) _) ?_
    exact fun hlt => (hy hlt).2
  next =>
    refine .bind (stmt_local c hc) hy ?_
    rintro first c₁ h₁ y - hc₁ hy
    refine .bind (stmts_local c₁ hc₁) hy ?_
    rintro more c₂ h₂ y - hc₂ hy
    exact .pure hc₂ hy
termination_by (c.rest.length, 1)

end

/-! ## Declarations -/

theorem fields_local (c : Cursor) (hc : c.In ts) :
    Local n ts ts' c.read (outcome c.fields) (outcome (c.on ts').fields) := by
  refine .intro fun y hy => ?_
  rw [fields] at hy ⊢
  simp +contextual only [on_peek h hc] at hy
  split
  next hvar =>
    simp only [hvar, if_true] at hy
    refine .bind (binding_local h hc) hy ?_
    rintro field c₁ h₁ y - hc₁ hy
    refine .bind (fields_local c₁ hc₁) hy ?_
    rintro more c₂ h₂ y - hc₂ hy
    exact .pure hc₂ hy
  next hvar =>
    simp only [hvar, if_false] at hy
    refine .bind (expect_local h hc _) hy ?_
    rintro _ c₁ h₁ y - hc₁ hy
    exact .pure hc₁ hy
termination_by c.rest.length

theorem recordDecl_local (hc : c.In ts) :
    Local n ts ts' c.read (outcome c.recordDecl) (outcome (c.on ts').recordDecl) := by
  refine .intro fun y hy => ?_
  unfold recordDecl at hy ⊢
  refine .bind (expect_local h hc _) hy ?_
  rintro _ c₁ h₁ y - hc₁ hy
  refine .bind (ident_local h hc₁ c₁.clears_self _) hy ?_
  rintro name c₂ h₂ y - hc₂ hy
  refine .bind (expect_local h hc₂ _) hy ?_
  rintro _ c₃ h₃ y - hc₃ hy
  refine .bind (fields_local h c₃ hc₃) hy ?_
  rintro fields c₄ h₄ y - hc₄ hy
  exact .pure hc₄ hy

theorem params_local (c : Cursor) (hc : c.In ts) :
    Local n ts ts' c.read (outcome c.params) (outcome (c.on ts').params) := by
  refine .intro fun y hy => ?_
  rw [params] at hy ⊢
  refine .bind (typeNote_local h hc c.clears_self) hy ?_
  rintro note c₁ h₁ y - hc₁ hy
  refine .bind (ident_local h hc₁ c₁.clears_self _) hy ?_
  rintro name c₂ h₂ y - hc₂ hy
  simp +contextual only [on_peek h hc₂] at hy
  dsimp only
  split
  next hcomma =>
    simp only [hcomma, if_true] at hy
    refine .bind (expect_local h hc₂ _) hy ?_
    rintro _ c₃ h₃ y - hc₃ hy
    refine .bind (params_local c₃ hc₃) hy ?_
    rintro more c₄ h₄ y - hc₄ hy
    exact .pure hc₄ hy
  next hcomma =>
    simp only [hcomma, if_false] at hy
    refine .bind (expect_local h hc₂ _) hy ?_
    rintro _ c₃ h₃ y - hc₃ hy
    exact .pure hc₃ hy
termination_by c.rest.length

theorem paramList_local (hc : c.In ts) :
    Local n ts ts' c.read (outcome c.paramList) (outcome (c.on ts').paramList) := by
  refine .intro fun y hy => ?_
  unfold paramList at hy ⊢
  simp +contextual only [on_peek h hc] at hy
  split
  next hclose =>
    simp only [hclose, if_true] at hy
    refine .bind (expect_local h hc _) hy ?_
    rintro _ c₁ h₁ y - hc₁ hy
    exact .pure hc₁ hy
  next hclose =>
    simp only [hclose, if_false] at hy
    exact (params_local h c hc).congr hy

theorem funDecl_local (hc : c.In ts) :
    Local n ts ts' c.read (outcome c.funDecl) (outcome (c.on ts').funDecl) := by
  refine .intro fun y hy => ?_
  unfold funDecl at hy ⊢
  refine .bind (expect_local h hc _) hy ?_
  rintro _ c₁ h₁ y - hc₁ hy
  refine .bind (returnNote_local h hc₁) hy ?_
  rintro ret c₂ h₂ y - hc₂ hy
  refine .bind (ident_local h hc₂ c₂.clears_self _) hy ?_
  rintro name c₃ h₃ y - hc₃ hy
  refine .bind (expect_local h hc₃ _) hy ?_
  rintro _ c₄ h₄ y - hc₄ hy
  refine .bind (paramList_local h hc₄) hy ?_
  rintro params c₅ h₅ y - hc₅ hy
  refine .bind (block_local h c₅ hc₅) hy ?_
  rintro body c₆ h₆ y - hc₆ hy
  exact .pure hc₆ hy

end Readers

/-! ## Whole programs -/

theorem Local.errorLocal {c' : Cursor} {x : Parse α c} {x' : Parse α c'}
    {f : Parsed α c → Except ParseError Program} {g : Parsed α c' → Except ParseError Program}
    {y : Except ParseError Program} (hx : Local n ts ts' k (outcome x) (outcome x'))
    (hy : k < n → y = x' >>= g)
    (hf : ∀ a d hd y, d.In ts → (d.read < n → ∃ hd', y = g ⟨a, d.on ts', hd'⟩) →
      ErrorLocal n ts d.read (f ⟨a, d, hd⟩) y) :
    ErrorLocal n ts k (x >>= f) y := by
  intro e he
  rcases bind_eq_error.mp he with rfl | ⟨⟨a, d, hd⟩, rfl, he⟩
  · obtain ⟨hk, hr, hsame⟩ := hx.error e rfl
    refine ⟨hk, hr, ?_⟩
    intro hlt
    rw [hy (Nat.lt_of_le_of_lt hk hlt), outcome_eq_error (hsame hlt)]
    rfl
  · obtain ⟨hk, hin, hsame⟩ := hx.ok a d rfl
    have hlater : d.read < n → ∃ hd', y = g ⟨a, d.on ts', hd'⟩ := by
      intro hlt
      obtain ⟨hd', hx'⟩ := outcome_eq_ok (hsame hlt)
      rw [hy (Nat.lt_of_le_of_lt hk hlt), hx']
      exact ⟨hd', rfl⟩
    exact (hf a d hd y hin hlater e he).imp_left (Nat.le_trans hk)

theorem ErrorLocal.map {ι : Prop} {x x' y : Except ParseError Program} {f : Program → Program}
    (hx : ErrorLocal n ts k x x') (hy : k < n → ∃ _ : ι, y = x' >>= fun p => pure (f p)) :
    ErrorLocal n ts k (x >>= fun p => pure (f p)) y := by
  intro e he
  rcases bind_eq_error.mp he with rfl | ⟨p, _, he⟩
  · obtain ⟨hk, hr, hsame⟩ := hx e rfl
    refine ⟨hk, hr, ?_⟩
    intro hlt
    obtain ⟨_, rfl⟩ := hy (Nat.lt_of_le_of_lt hk hlt)
    rw [hsame hlt]
    rfl
  · cases he

theorem program_local (h : Common n ts ts') (c : Cursor) (hc : c.In ts) :
    ErrorLocal n ts c.read c.program (c.on ts').program := by
  generalize hy : (c.on ts').program = y
  replace hy : c.read < n → y = (c.on ts').program := fun _ => hy.symm
  rw [program] at hy ⊢
  simp +contextual only [on_peek h hc] at hy
  revert hy
  split <;> intro hy
  next =>
    rintro _ ⟨⟩
  next =>
    rintro _ ⟨⟩
  next =>
    refine (recordDecl_local h hc).errorLocal hy ?_
    rintro record c₁ h₁ y hc₁ hy
    exact (program_local h c₁ hc₁).map hy
  next =>
    refine (funDecl_local h hc).errorLocal hy ?_
    rintro fn c₁ h₁ y hc₁ hy
    exact (program_local h c₁ hc₁).map hy
  next =>
    rintro _ ⟨⟩
    refine ⟨Nat.le_refl _, hc.reports _, ?_⟩
    intro hlt
    rw [hy hlt, refuse, on_peek h hc hlt, on_pos h hc hlt]
    rfl
termination_by c.rest.length

end Cursor

namespace Program

/-- Where reading fails at a token, it depends on the tokens up to this one only: every row that
begins with them is refused with the same error, which reports this token. -/
theorem refused_token_is_refused_whatever_follows {ts ts' : List Lexeme} {e : ParseError}
    (h : Program.parse ts = .error e) (hk : e.index < (dropComments ts).length)
    (hsame : (dropComments ts').take (e.index + 1) = (dropComments ts).take (e.index + 1)) :
    Program.parse ts' = .error e ∧ e.pos = (dropComments ts)[e.index].pos ∧
      (e.found = some (dropComments ts)[e.index].token ∨
        (dropComments ts)[e.index].token = .eof ∧ e.found = none) := by
  obtain ⟨_, hreports, hparse⟩ := Cursor.program_local hsame (.start ts) rfl e h
  exact ⟨hparse (Nat.lt_succ_self _), hreports _ (List.getElem?_eq_getElem hk)⟩

def inLine (ts : List Token) : List Lexeme := ts.mapIdx fun i t => ⟨t, ⟨1, i + 1⟩⟩

/-- The beginning of a function whose first statement has two names side by side. -/
def twoNames : List Token :=
  [.keyword .funWord, .keyword .voidType, .name "main", .symbol .openParen, .symbol .closeParen,
    .symbol .openBrace, .comment "a statement", .name "x", .name "y"]

theorem two_names_are_refused_whatever_follows :
    let e : ParseError := ⟨⟨1, 9⟩, .token (.symbol .assign), some (.name "y"), 7⟩
    Program.parse (inLine (twoNames ++
        [Token.symbol .assign, .int 1, .symbol .closeBrace, .eof])) = .error e ∧
      Program.parse (inLine (twoNames ++ [Token.symbol .openParen])) = .error e := by
  intro e
  have h : Program.parse (inLine (twoNames ++
      [Token.symbol .assign, .int 1, .symbol .closeBrace, .eof])) = .error e :=
    error?_eq_some_iff.mp (by decide +kernel)
  exact ⟨h, (refused_token_is_refused_whatever_follows h (by decide) (by decide)).1⟩

end Program

end RecordLang

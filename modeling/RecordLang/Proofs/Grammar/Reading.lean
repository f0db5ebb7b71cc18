import RecordLang.Program.Parse
import RecordLang.Proofs.Grammar.Spelling

/-! # Readers and the tokens they take

Of a reader two things are to be said: which tokens it has taken if it succeeds, and on which
tokens it succeeds. Here both are said of the readers of one token and of a path.
-/

namespace RecordLang

section Except

variable {ε α β : Type} {x : Except ε α} {f : α → Except ε β} {P : α → Prop} {Q : β → Prop}

def Yields (x : Except ε α) (P : α → Prop) : Prop := ∀ a, x = .ok a → P a

def Gives (x : Except ε α) (P : α → Prop) : Prop := ∃ a, x = .ok a ∧ P a

theorem Yields.pure {a : α} (h : P a) : Yields (pure a : Except ε α) P := by
  intro b hb
  cases hb
  exact h

theorem Yields.bind (hx : Yields x P) (hf : ∀ a, P a → Yields (f a) Q) : Yields (x >>= f) Q := by
  intro b hb
  cases x with
  | error e => cases hb
  | ok a => exact hf a (hx a rfl) b hb

theorem Yields.imp {P' : α → Prop} (hx : Yields x P) (h : ∀ a, P a → P' a) : Yields x P' :=
  fun a ha => h a (hx a ha)

theorem yields_error {e : ε} : Yields (.error e) P := by
  intro a ha
  cases ha

theorem Gives.pure {a : α} (h : P a) : Gives (pure a : Except ε α) P := ⟨a, rfl, h⟩

theorem Gives.bind (hx : Gives x P) (hf : ∀ a, P a → Gives (f a) Q) : Gives (x >>= f) Q := by
  obtain ⟨a, rfl, ha⟩ := hx
  exact hf a ha

theorem Gives.imp {P' : α → Prop} (hx : Gives x P) (h : ∀ a, P a → P' a) : Gives x P' := by
  obtain ⟨a, ha, hP⟩ := hx
  exact ⟨a, ha, h a hP⟩

theorem Gives.yields (hx : Gives x P) : Yields x P := by
  obtain ⟨a, rfl, ha⟩ := hx
  exact .pure ha

end Except

namespace Cursor

variable {α : Type} {c : Cursor} {t u : Token} {ts : List Token}

/-- The tokens to be read, which are those before the end of the file. -/
def tokens (c : Cursor) : List Token := (c.rest.map Lexeme.token).takeWhile (· ≠ .eof)

theorem peek_of_tokens (h : c.tokens = t :: ts) : c.peek = some t := by
  obtain ⟨_ | ⟨l, rest⟩, last, read⟩ := c
  · cases h
  · simp only [tokens, List.map_cons, List.takeWhile_cons] at h
    split at h
    · cases h
      rfl
    · cases h

theorem peek_eq_some_iff (ht : t ≠ .eof) : c.peek = some t ↔ c.tokens.head? = some t := by
  obtain ⟨_ | ⟨l, rest⟩, last, read⟩ := c
  · rfl
  · simp only [tokens, peek, List.map_cons, List.takeWhile_cons, List.head?_cons, Option.map_some,
      Option.some.injEq]
    split
    next h => simp
    next h =>
      have hl : l.token = .eof := by simpa using h
      simp [hl, ht.symm]

theorem peekSecond_eq_some_iff (h : c.tokens = t :: ts) (hu : u ≠ .eof) :
    c.peekSecond = some u ↔ ts.head? = some u := by
  obtain ⟨_ | ⟨l, rest⟩, last, read⟩ := c
  · cases h
  · simp only [tokens, List.map_cons, List.takeWhile_cons] at h
    split at h
    · cases h
      exact peek_eq_some_iff (c := ⟨rest, l.pos, read + 1⟩) hu
    · cases h

theorem tokens_eq_nil_iff : c.tokens = [] ↔ c.peek = none ∨ c.peek = some .eof := by
  obtain ⟨_ | ⟨l, rest⟩, last, read⟩ := c
  · simp [tokens, peek]
  · by_cases hl : l.token = .eof
    · simp [tokens, peek, hl]
    · simp [tokens, peek, hl]

/-! ## One token -/

theorem take_yields {wanted : Wanted} {f : Token → Option α} (hf : f .eof = none) :
    Yields (c.take wanted f) fun r => ∃ t, f t = some r.value ∧ c.tokens = t :: r.next.tokens := by
  intro r hr
  unfold take at hr
  split at hr
  next => cases hr
  next l rest hrest =>
    split at hr
    next a ha =>
      cases hr
      have hl : l.token ≠ .eof := by
        intro hl
        rw [hl, hf] at ha
        cases ha
      exact ⟨l.token, ha, by simp [tokens, hrest, hl]⟩
    next => cases hr

theorem take_gives {wanted : Wanted} {f : Token → Option α} {a : α} (hf : f t = some a)
    (h : c.tokens = t :: ts) :
    Gives (c.take wanted f) fun r => r.value = a ∧ r.next.tokens = ts := by
  obtain ⟨_ | ⟨l, rest⟩, last, read⟩ := c
  · cases h
  · simp only [tokens, List.map_cons, List.takeWhile_cons] at h
    split at h
    · cases h
      unfold take
      simp only [hf]
      exact ⟨_, rfl, rfl, rfl⟩
    · cases h

theorem expect_yields (t : Token) (ht : t ≠ .eof) :
    Yields (c.expect t) fun r => c.tokens = t :: r.next.tokens := by
  refine (take_yields (if_neg ht.symm)).imp ?_
  rintro r ⟨u, hu, h⟩
  split at hu
  next heq => rwa [heq] at h
  next => cases hu

theorem expect_gives (h : c.tokens = t :: ts) :
    Gives (c.expect t) fun r => r.next.tokens = ts :=
  (take_gives (if_pos rfl) h).imp fun _ hr => hr.2

theorem ident_yields (role : String) :
    Yields (c.ident role) fun r => c.tokens = r.value.token :: r.next.tokens := by
  refine (take_yields rfl).imp ?_
  rintro r ⟨u, hu, h⟩
  split at hu
  next => rw [h, ← Option.some.inj hu, Ident.token]
  next => cases hu

theorem ident_gives (role : String) {x : Ident} (h : c.tokens = x.token :: ts) :
    Gives (c.ident role) fun r => r.value.bare = x.bare ∧ r.next.tokens = ts := by
  refine (take_gives (by rfl) h).imp ?_
  rintro r ⟨hr, hts⟩
  exact ⟨by rw [hr]; rfl, hts⟩

theorem typeNote_yields :
    Yields c.typeNote fun r => c.tokens = r.value.token :: r.next.tokens ∧ r.value.OfVariable := by
  refine (take_yields rfl).imp ?_
  rintro r ⟨u, hu, h⟩
  split at hu
  case h_7 => cases hu
  all_goals
    rw [h, ← Option.some.inj hu]
    exact ⟨rfl, nofun, nofun⟩

theorem typeNote_gives {note : TypeNote} (hn : note.OfVariable) (h : c.tokens = note.token :: ts) :
    Gives c.typeNote fun r => r.value.bare = note.bare ∧ r.next.tokens = ts := by
  obtain ⟨ty, p⟩ := note
  obtain ⟨hnil, hvoid⟩ := hn
  cases ty with
  | nil => exact absurd rfl hnil
  | void => exact absurd rfl hvoid
  | int | double | bool | char | string | record =>
    refine (take_gives (by rfl) h).imp ?_
    rintro r ⟨hr, hts⟩
    exact ⟨by rw [hr]; rfl, hts⟩

theorem returnNote_yields :
    Yields c.returnNote fun r =>
      c.tokens = r.value.token :: r.next.tokens ∧ r.value.ty ≠ .nil := by
  unfold returnNote
  split
  next hpeek =>
    -- Any token would do for this reader, so that it is `void` is known from the look ahead.
    obtain ⟨ts, hts⟩ := List.head?_eq_some_iff.mp ((peek_eq_some_iff (by nofun)).mp hpeek)
    refine (take_gives (by rfl) hts).yields.imp ?_
    rintro r ⟨hr, hnext⟩
    rw [hts, hr, hnext]
    exact ⟨rfl, nofun⟩
  next =>
    refine typeNote_yields.imp ?_
    rintro r ⟨h, hnil, _⟩
    exact ⟨h, hnil⟩

theorem returnNote_gives {note : TypeNote} (hn : note.ty ≠ .nil) (h : c.tokens = note.token :: ts) :
    Gives c.returnNote fun r => r.value.bare = note.bare ∧ r.next.tokens = ts := by
  unfold returnNote
  rw [peek_of_tokens h]
  by_cases hvoid : note.ty = .void
  · rw [if_pos (by rw [TypeNote.token, hvoid]; rfl)]
    refine (take_gives (by rfl) h).imp ?_
    rintro r ⟨hr, hts⟩
    exact ⟨by rw [hr, TypeNote.bare, TypeNote.bare, hvoid], hts⟩
  · have hne : note.token ≠ .keyword .voidType := by
      obtain ⟨ty, p⟩ := note
      cases ty with
      | void => exact absurd rfl hvoid
      | nil | int | double | bool | char | string | record => rintro ⟨⟩
    rw [if_neg fun heq => hne (Option.some.inj heq)]
    exact typeNote_gives ⟨hn, hvoid⟩ h

theorem direction_yields :
    Yields c.direction fun r => c.tokens = r.value.token :: r.next.tokens := by
  refine (take_yields rfl).imp ?_
  rintro r ⟨u, hu, h⟩
  split at hu
  case h_3 => cases hu
  all_goals
    rw [h, ← Option.some.inj hu]
    rfl

theorem direction_gives {d : Direction} (h : c.tokens = d.token :: ts) :
    Gives c.direction fun r => r.value = d ∧ r.next.tokens = ts := by
  cases d <;> exact take_gives (by rfl) h

/-! ## Paths -/

theorem path_yields (c : Cursor) (role : String) :
    Yields (c.path role) fun r =>
      c.tokens = pathTokens r.value ++ r.next.tokens ∧ r.value ≠ [] := by
  rw [path]
  refine (ident_yields role).bind ?_
  rintro ⟨x, c₁, h₁⟩ hx
  dsimp only at hx ⊢
  split
  next =>
    refine (expect_yields (.symbol .dot) nofun).bind ?_
    rintro ⟨p, c₂, h₂⟩ hdot
    refine (path_yields c₂ "field name").bind ?_
    rintro ⟨names, c₃, h₃⟩ ⟨hnames, hne⟩
    obtain ⟨y, names, rfl⟩ := List.exists_cons_of_ne_nil hne
    refine .pure ⟨?_, nofun⟩
    simp [pathTokens_cons_cons, hx, hdot, hnames]
  next => exact .pure ⟨hx, nofun⟩
termination_by c.rest.length

theorem path_gives (names : List Ident) (role : String) {c : Cursor} (hne : names ≠ [])
    (h : c.tokens = pathTokens names ++ ts) (hts : ts.head? ≠ some (.symbol .dot)) :
    Gives (c.path role) fun r =>
      r.value.map Ident.bare = names.map Ident.bare ∧ r.next.tokens = ts := by
  match names with
  | [x] =>
    rw [path]
    refine (ident_gives role h).bind ?_
    rintro ⟨x', c₁, h₁⟩ ⟨hx, hc₁⟩
    dsimp only at hx hc₁ ⊢
    rw [if_neg (by rwa [peek_eq_some_iff (by nofun), hc₁])]
    exact .pure ⟨by simp [hx], hc₁⟩
  | x :: y :: names =>
    rw [path]
    refine (ident_gives role h).bind ?_
    rintro ⟨x', c₁, h₁⟩ ⟨hx, hc₁⟩
    dsimp only at hx hc₁ ⊢
    rw [if_pos (peek_of_tokens hc₁)]
    refine (expect_gives hc₁).bind ?_
    rintro ⟨p, c₂, h₂⟩ hc₂
    refine (path_gives (y :: names) "field name" nofun hc₂ hts).bind ?_
    rintro ⟨names', c₃, h₃⟩ ⟨hnames, hc₃⟩
    exact .pure ⟨by rw [List.map_cons, hnames, hx]; rfl, hc₃⟩

end Cursor

end RecordLang

import RecordLang.Proofs.Decimal
import RecordLang.Proofs.Text
import RecordLang.Token.Lex

/-! # Written tokens

A token that is written out is read again as the same token, whether a blank follows it or nothing.
So a row of tokens that is written with blanks in between is read as these tokens.
-/

namespace RecordLang

namespace Token

open Text

def escaped (c : Char) : List Char :=
  if c = '\n' then ['\\', 'n']
  else if c = '\t' then ['\\', 't']
  else if c = '\r' then ['\\', 'r']
  else if c = '\\' || isQuote c then ['\\', c]
  else [c]

def written : Token → String
  | .char c => String.ofList ('\x27' :: escaped c ++ ['\x27'])
  | .string s => String.ofList ('\x22' :: s.toList.flatMap escaped ++ ['\x22'])
  | t => t.text

def source (ts : List Token) : String := " ".intercalate (ts.map written)

def IsWord (cs : List Char) : Prop :=
  ∃ c tail, cs = c :: tail ∧ isLetter c = true ∧ tail.all isWordChar = true

structure IsName (s : String) : Prop where
  word : IsWord s.toList
  literal : s ∉ ["true", "false", "nil"]
  keyword : ∀ k : Keyword, k.text ≠ s

/-- The tokens that are written in one way: doubles and comments are not, and the end of the text is
not written at all. -/
def Writable : Token → Prop
  | .int n => 0 ≤ n
  | .name s => IsName s
  | .double _ | .comment _ | .eof => False
  | _ => True

def Parted (rest : List Char) : Prop := rest = [] ∨ ∃ cs, rest = ' ' :: cs

/-- The text is read as the token `t` if it is parted from what follows. -/
def ReadAs (cs : List Char) (t : Token) : Prop :=
  ∃ c tail, cs = c :: tail ∧ isBlank c = false ∧
    ∀ rest, Parted rest → scan c (tail ++ rest) = .ok ⟨t, c :: tail, rest⟩

variable {c : Char} {cs rest : List Char}

theorem span_of_parted {p : Char → Bool} (hcs : ∀ x ∈ cs, p x = true) (hp : p ' ' = false)
    (hr : Parted rest) : (cs ++ rest).takeWhile p = cs ∧ (cs ++ rest).dropWhile p = rest := by
  rw [List.takeWhile_append_of_pos hcs, List.dropWhile_append_of_pos hcs]
  rcases hr with rfl | ⟨r, rfl⟩ <;> simp [hp]

theorem ne_of_class {p : Char → Bool} {x : Char} (h : p c = true) (hx : p x = false) : c ≠ x := by
  rintro rfl
  rw [h] at hx
  cases hx

/-! ## Words and symbols -/

theorem scan_of_isLetter (h : isLetter c = true) (cs : List Char) :
    scan c cs = .ok (scanWord c cs) := by
  have hne : ∀ x, isLetter x = false → c ≠ x := fun _ => ne_of_class h
  have hdigit := isDigit_of_isLetter h
  rw [scan, if_neg (hne '#' (by decide)), if_neg (hne '\x22' (by decide)),
    if_neg (hne '\x27' (by decide)), if_neg (by simp [hdigit]), if_neg (hne '_' (by decide)),
    if_pos h]

theorem IsWord.readAs (h : IsWord cs) : ReadAs cs (ofWord (String.ofList cs)) := by
  obtain ⟨c, tail, rfl, hc, htail⟩ := h
  refine ⟨c, tail, rfl, isBlank_of_isLetter hc, ?_⟩
  intro rest hr
  obtain ⟨htaken, hrest⟩ := span_of_parted (List.all_eq_true.mp htail) (by decide) hr
  rw [scan_of_isLetter hc, scanWord, htaken, hrest]

/-- Keywords are read as they are shown. -/
theorem keyword_spelling (k : Keyword) : k.spelling = k.text := by
  cases k <;> rfl

theorem symbol_characters (s : Symbol) : s.text.toList = s.characters := by
  cases s <;> rfl

theorem keyword_isWord (k : Keyword) : IsWord k.text.toList := by
  cases k <;> exact ⟨_, _, rfl, by decide, by decide⟩

theorem ofWord_keyword (k : Keyword) : ofWord k.text = .keyword k := by
  cases k <;> decide

theorem IsName.ofWord {s : String} (h : IsName s) : ofWord s = .name s := by
  obtain ⟨htrue, hfalse, hnil⟩ : s ≠ "true" ∧ s ≠ "false" ∧ s ≠ "nil" := by
    simpa using h.literal
  have hkeyword : Keyword.ofSpelling? s = none :=
    List.find?_eq_none.mpr fun k _ => by simpa [keyword_spelling] using h.keyword k
  rw [Token.ofWord, if_neg htrue, if_neg hfalse, if_neg hnil, hkeyword]

theorem symbol_readAs (s : Symbol) : ReadAs s.characters (.symbol s) := by
  -- What follows must be known as far as its first character, since `=` may go on as `==`.
  cases s <;> refine ⟨_, _, rfl, rfl, ?_⟩ <;> rintro rest (rfl | ⟨r, rfl⟩) <;> rfl

/-! ## Numbers -/

theorem hasLeadingZero_of_head? (h : cs.head? ≠ some '0') : hasLeadingZero cs = false := by
  unfold hasLeadingZero
  split
  next => exact absurd rfl h
  next => rfl

theorem hasLeadingZero_toDigits (n : Nat) : hasLeadingZero (Nat.toDigits 10 n) = false := by
  cases n with
  | zero => decide
  | succ n => exact hasLeadingZero_of_head? (Decimal.head?_toDigits (Nat.succ_pos n))

theorem scan_of_isDigit (h : isDigit c = true) (cs : List Char) :
    scan c cs = scanNumber (c :: cs) := by
  have hne : ∀ x, isDigit x = false → c ≠ x := fun _ => ne_of_class h
  rw [scan, if_neg (hne '#' (by decide)), if_neg (hne '\x22' (by decide)),
    if_neg (hne '\x27' (by decide)), if_pos h]

theorem int_readAs {n : Int64} (hn : 0 ≤ n) :
    ReadAs (Nat.toDigits 10 n.toInt.natAbs) (.int n) := by
  have hdigits : ∀ x ∈ Nat.toDigits 10 n.toInt.natAbs, isDigit x = true :=
    fun _ => Decimal.isDigit_of_mem_toDigits
  have hvalue := Decimal.readInt64?_toDigits hn
  have hzero := hasLeadingZero_toDigits n.toInt.natAbs
  obtain ⟨c, tail, hcs⟩ : ∃ c tail, Nat.toDigits 10 n.toInt.natAbs = c :: tail :=
    List.exists_cons_of_ne_nil Nat.toDigits_ne_nil
  rw [hcs] at hdigits hvalue hzero ⊢
  have hc : isDigit c = true := hdigits c (.head _)
  refine ⟨c, tail, rfl, isBlank_of_isDigit hc, ?_⟩
  intro rest hr
  obtain ⟨htaken, hrest⟩ := span_of_parted hdigits (by decide) hr
  rw [scan_of_isDigit hc, ← List.cons_append, scanNumber, htaken, hrest, hvalue]
  -- Neither a point nor a letter follows, so the number ends with its digits.
  have hletter : isLetter ' ' = false := by decide
  rcases hr with rfl | ⟨r, rfl⟩ <;> simp [finishNumber, hzero, hletter]

/-! ## Quoted literals -/

/-- A character is written as an escape that stands for it, or it is written as it is and neither
ends a literal nor begins an escape. -/
theorem escaped_cases (c : Char) :
    (∃ e, escaped c = ['\\', e] ∧ unescape? e = some c) ∨
      (escaped c = [c] ∧ isQuote c = false ∧ isLineEnd c = false ∧ c ≠ '\\') := by
  unfold escaped
  by_cases hn : c = '\n'
  · subst hn
    exact .inl ⟨'n', rfl, rfl⟩
  by_cases ht : c = '\t'
  · subst ht
    exact .inl ⟨'t', rfl, rfl⟩
  by_cases hr : c = '\r'
  · subst hr
    exact .inl ⟨'r', rfl, rfl⟩
  rw [if_neg hn, if_neg ht, if_neg hr]
  by_cases hs : c = '\\'
  · subst hs
    exact .inl ⟨'\\', rfl, rfl⟩
  cases hq : isQuote c with
  | true =>
    refine .inl ⟨c, by simp, ?_⟩
    simp only [isQuote, Bool.or_eq_true, decide_eq_true_eq] at hq
    rcases hq with rfl | rfl <;> rfl
  | false => exact .inr ⟨by simp [hs], rfl, by simp [isLineEnd, hn, hr], hs⟩

theorem scanString_escaped (s : List Char) (rest : List Char) :
    scanString (s.flatMap escaped ++ '\x22' :: rest) =
      .ok ⟨s, s.flatMap escaped ++ ['\x22'], rest⟩ := by
  induction s with
  | nil => rw [scanString.eq_def]; rfl
  | cons c s ih =>
    rcases escaped_cases c with ⟨e, hc, he⟩ | ⟨hc, hquote, hline, hslash⟩
    · have hline : isLineEnd '\\' = false := by decide
      simp [List.flatMap_cons, hc, scanString, hline, he, ih]
    · have hquote : c ≠ '\x22' := (ne_of_class (p := isQuote) rfl hquote).symm
      rw [List.flatMap_cons, hc, List.append_assoc, List.singleton_append, scanString.eq_def]
      simp [hquote, hline, hslash, ih]

theorem string_readAs (s : String) : ReadAs (written (.string s)).toList (.string s) := by
  refine ⟨'\x22', s.toList.flatMap escaped ++ ['\x22'], by simp [written], by decide, ?_⟩
  intro rest _
  have hscan := scanString_escaped s.toList rest
  simp [scan, scanQuoted, hscan]

theorem char_readAs (c : Char) : ReadAs (written (.char c)).toList (.char c) := by
  refine ⟨'\x27', escaped c ++ ['\x27'], by simp [written], by decide, ?_⟩
  intro rest _
  have hscan : scanChar (escaped c ++ '\x27' :: rest) = .ok ⟨c, escaped c ++ ['\x27'], rest⟩ := by
    rcases escaped_cases c with ⟨e, hc, he⟩ | ⟨hc, hquote, hline, hslash⟩
    · have hline : isLineEnd '\\' = false := by decide
      simp [hc, scanChar, closeChar, hline, he]
    · have hquote : c ≠ '\x27' := (ne_of_class (p := isQuote) rfl hquote).symm
      simp [hc, scanChar, closeChar, hquote, hline, hslash]
  simp [scan, scanQuoted, hscan]

/-! ## Rows of tokens -/

theorem Writable.readAs {t : Token} (h : t.Writable) : ReadAs t.written.toList t := by
  cases t with
  | int n =>
    have hn : ¬ n.toInt < 0 := Int.not_lt.mpr (Int64.le_iff_toInt_le.mp h)
    have htext : (written (.int n)).toList = Nat.toDigits 10 n.toInt.natAbs := by
      change (Decimal.intText n.toInt).toList = _
      rw [Decimal.intText, if_neg hn, Decimal.natText, String.toList_ofList]
    rw [htext]
    exact int_readAs h
  | bool b =>
    cases b
    · exact IsWord.readAs ⟨_, _, rfl, by decide, by decide⟩
    · exact IsWord.readAs ⟨_, _, rfl, by decide, by decide⟩
  | char c => exact char_readAs c
  | string s => exact string_readAs s
  | nil => exact IsWord.readAs ⟨_, _, rfl, by decide, by decide⟩
  | keyword k =>
    have hread := (keyword_isWord k).readAs
    rwa [String.ofList_toList, ofWord_keyword] at hread
  | symbol s =>
    have hread := symbol_readAs s
    rwa [← symbol_characters] at hread
  | name s =>
    have hread := (IsName.word h).readAs
    rwa [String.ofList_toList, IsName.ofWord h] at hread
  | double | comment | eof => cases h

theorem lexFrom_of_blanks {p : Position} (h : cs.dropWhile isBlank = []) :
    lexFrom p cs = .ok [⟨.eof, p.after (cs.takeWhile isBlank)⟩] := by
  rw [lexFrom]
  split
  next => rfl
  next heq => rw [h] at heq; cases heq

theorem lexFrom_of_scan {p : Position} {s : Scan Token} {later : List Lexeme}
    (h : cs.dropWhile isBlank = c :: rest) (hs : scan c rest = .ok s)
    (hl : lexFrom ((p.after (cs.takeWhile isBlank)).after s.taken) s.rest = .ok later) :
    lexFrom p cs = .ok (⟨s.content, p.after (cs.takeWhile isBlank)⟩ :: later) := by
  rw [lexFrom]
  split
  next heq => rw [h] at heq; cases heq
  next c' rest' heq =>
    rw [h] at heq
    cases heq
    split
    next heq => rw [hs] at heq; cases heq
    next heq =>
      rw [hs] at heq
      cases heq
      rw [hl]

def LexesTo (cs : List Char) (ts : List Token) : Prop :=
  ∀ p, ∃ lexemes, lexFrom p cs = .ok lexemes ∧ lexemes.map Lexeme.token = ts

theorem lexesTo_nil : LexesTo [] [.eof] := fun _ => ⟨_, lexFrom_of_blanks rfl, rfl⟩

theorem ReadAs.lexesTo {t : Token} {ts : List Token} {blanks : List Char} (h : ReadAs cs t)
    (hb : ∀ x ∈ blanks, isBlank x = true) (hr : Parted rest) (hl : LexesTo rest ts) :
    LexesTo (blanks ++ (cs ++ rest)) (t :: ts) := by
  obtain ⟨c, tail, rfl, hc, hscan⟩ := h
  intro p
  have hdrop : (blanks ++ (c :: tail ++ rest)).dropWhile isBlank = c :: (tail ++ rest) := by
    rw [List.dropWhile_append_of_pos hb, List.cons_append,
      List.dropWhile_cons_of_neg (by simp [hc])]
  obtain ⟨lexemes, hlex, htokens⟩ := hl _
  refine ⟨_, lexFrom_of_scan hdrop (hscan rest hr) hlex, ?_⟩
  rw [List.map_cons, htokens]

def continuation (ts : List Token) : List Char := ts.flatMap fun t => [' '] ++ t.written.toList

theorem parted_continuation (ts : List Token) : Parted (continuation ts) := by
  cases ts with
  | nil => exact .inl rfl
  | cons t ts => exact .inr ⟨t.written.toList ++ continuation ts, rfl⟩

theorem lexesTo_continuation {ts : List Token} (h : ∀ t ∈ ts, t.Writable) :
    LexesTo (continuation ts) (ts ++ [.eof]) := by
  induction ts with
  | nil => exact lexesTo_nil
  | cons t ts ih =>
    obtain ⟨ht, hts⟩ := List.forall_mem_cons.mp h
    have hblank : ∀ x ∈ [' '], isBlank x = true := List.forall_mem_singleton.mpr (by decide)
    have hlex := ht.readAs.lexesTo hblank (parted_continuation ts) (ih hts)
    rwa [← List.append_assoc] at hlex

theorem toList_source_cons (t : Token) (ts : List Token) :
    (source (t :: ts)).toList = t.written.toList ++ continuation ts := by
  induction ts generalizing t with
  | nil => simp [source, continuation]
  | cons u ts ih =>
    have hu := ih u
    simp only [source, String.toList_intercalate, List.map_cons,
      List.intercalate_cons_cons] at hu ⊢
    rw [hu, List.append_assoc]
    rfl

/-- Tokens that are written with a blank between each two are read as the same tokens, and behind
them comes the end of the text. -/
theorem written_tokens_are_read_back {ts : List Token} (h : ∀ t ∈ ts, t.Writable) :
    ∃ lexemes, lex (source ts) = .ok lexemes ∧ lexemes.map Lexeme.token = ts ++ [.eof] := by
  suffices hlex : LexesTo (source ts).toList (ts ++ [.eof]) from hlex .start
  cases ts with
  | nil => exact lexesTo_nil
  | cons t ts =>
    obtain ⟨ht, hts⟩ := List.forall_mem_cons.mp h
    rw [toList_source_cons]
    exact ht.readAs.lexesTo (List.forall_mem_nil _) (parted_continuation ts)
      (lexesTo_continuation hts)

/-- Tokens that are close to others: names that begin with a keyword, symbols that begin with a
symbol, numbers at both ends of their range, and text that is full of quotes. -/
def closeCalls : List Token :=
  [.name "iffy", .keyword .ifWord, .name "é_1", .symbol .assign, .symbol .equal, .symbol .lessEq,
    .symbol .less, .int 0, .int 9223372036854775807, .bool true, .nil, .char '\x27', .char '\n',
    .string "", .string "#\"\\\t'\r é"]

theorem close_calls_are_read_back :
    (∀ t ∈ closeCalls, t.Writable) ∧
      source closeCalls = "iffy if é_1 = == <= < 0 9223372036854775807 true nil " ++
        "'\\'' '\\n' \"\" \"#\\\"\\\\\\t\\'\\r é\"" ∧
      ∃ lexemes, lex (source closeCalls) = .ok lexemes ∧
        lexemes.map Lexeme.token = closeCalls ++ [.eof] := by
  have hiffy : IsName "iffy" :=
    ⟨⟨_, _, rfl, by decide, by decide⟩, by decide, fun k => by cases k <;> decide⟩
  have haccent : IsName "é_1" :=
    ⟨⟨_, _, rfl, by decide, by decide⟩, by decide, fun k => by cases k <;> decide⟩
  have hwritable : ∀ t ∈ closeCalls, t.Writable := by
    simp only [closeCalls, List.forall_mem_cons]
    exact ⟨hiffy, trivial, haccent, trivial, trivial, trivial, trivial,
      show (0 : Int64) ≤ 0 by decide, show (0 : Int64) ≤ 9223372036854775807 by decide,
      trivial, trivial, trivial, trivial, trivial, trivial, nofun⟩
  exact ⟨hwritable, by decide, written_tokens_are_read_back hwritable⟩

end Token

end RecordLang

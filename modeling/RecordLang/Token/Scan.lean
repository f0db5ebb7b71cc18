import RecordLang.Decimal.Nearest
import RecordLang.Text.Blank
import RecordLang.Token

/-! # Reading one token

`Token.scan` reads the token at the front of a text that begins with no blank, and reports the
characters the token takes and those that follow it. Main statement: together they are the text
(`Token.scan_splits`), and a token takes at least one character.
-/

namespace RecordLang

open Text

inductive Flaw where
  | leadingUnderscore
  | unexpected (c : Char)
  | loneBang
  | unknownEscape (c : Char)
  | unfinishedEscape
  | emptyChar
  | newlineInChar
  | unfinishedChar
  | missingQuote (found : Char)
  | newlineInString
  | unfinishedString
  | missingDecimal (digits : String)
  | manyPoints (digits : String)
  | adjacent (c : Char) (digits : String)
  | leadingZero (digits : String)
  | integerRange (digits : String)
  deriving DecidableEq

def Flaw.message : Flaw → String
  | .leadingUnderscore => "identifier cannot begin with underscore"
  | .unexpected c => "unexpected character: '" ++ c.toString ++ "'"
  | .loneBang => "expecting '=' after '!'"
  | .unknownEscape c => "unknown escape sequence: \\" ++ c.toString
  | .unfinishedEscape => "unexpected end-of-file in escape sequence"
  | .emptyChar => "empty character"
  | .newlineInChar => "found newline in character"
  | .unfinishedChar => "unterminated character"
  | .missingQuote c => "expecting ' found '" ++ c.toString ++ "'"
  | .newlineInString => "found newline within string"
  | .unfinishedString => "found end-of-file in string"
  | .missingDecimal s => "missing decimal digit in double value '" ++ s ++ ".'"
  | .manyPoints s => "too many decimal points in double value '" ++ s ++ "'"
  | .adjacent c s => "invalid character '" ++ c.toString ++ "' after number '" ++ s ++ "'"
  | .leadingZero s => "leading zero in '" ++ s ++ "'"
  | .integerRange s => "invalid integer: " ++ s

/-- A flaw and where it is reported: at the start of the token, or behind some of its characters. -/
inductive Refusal where
  | atStart (flaw : Flaw)
  | behind (taken : List Char) (flaw : Flaw)

namespace Refusal

def flaw : Refusal → Flaw
  | .atStart f => f
  | .behind _ f => f

def position (p : Position) : Refusal → Position
  | .atStart _ => p
  | .behind taken _ => p.after taken

/-- The same refusal seen from an earlier start. -/
def prepend (cs : List Char) : Refusal → Refusal
  | .atStart f => .atStart f
  | .behind taken f => .behind (cs ++ taken) f

end Refusal

/-- Content read from the front of a text, with the characters it takes and those that follow. -/
structure Scan (α : Type) where
  content : α
  taken : List Char
  rest : List Char

/-- The scan takes a first part of `cs`, at least one character of it. -/
def Scan.Splits {α : Type} (s : Scan α) (cs : List Char) : Prop :=
  s.taken ≠ [] ∧ s.taken ++ s.rest = cs

theorem Scan.Splits.rest_length {α : Type} {s : Scan α} {cs : List Char} (h : s.Splits cs) :
    s.rest.length < cs.length := by
  obtain ⟨hne, rfl⟩ := h
  have := List.length_pos_iff.mpr hne
  simp only [List.length_append]
  omega

namespace Token

def unescape? (c : Char) : Option Char :=
  if c = 'n' then some '\n'
  else if c = 't' then some '\t'
  else if c = 'r' then some '\r'
  else if c = '\\' || isQuote c then some c
  else none

def isLineEnd (c : Char) : Bool := c = '\n' || c = '\r'

/-- Whether a character can continue a name. -/
def isWordChar (c : Char) : Bool := isLetter c || isNumeral c || c = '_'

/-- A comment reaches to the end of its line; `cs` follows its mark. -/
def scanComment (cs : List Char) : Scan Token where
  content := .comment (String.ofList (trimBlanks (cs.takeWhile (· ≠ '\n'))))
  taken := '#' :: cs.takeWhile (· ≠ '\n')
  rest := cs.dropWhile (· ≠ '\n')

def scanWord (c : Char) (cs : List Char) : Scan Token where
  content := ofWord (String.ofList (c :: cs.takeWhile isWordChar))
  taken := c :: cs.takeWhile isWordChar
  rest := cs.dropWhile isWordChar

/-- The rest of a string behind its opening quote, up to and with its closing quote. -/
def scanString : List Char → Except Refusal (Scan (List Char))
  | [] => .error (.atStart .unfinishedString)
  | c :: cs =>
    if c = '\x22' then .ok ⟨[], [c], cs⟩
    else if isLineEnd c then .error (.atStart .newlineInString)
    else if c = '\\' then
      match cs with
      | [] => .error (.behind [c] .unfinishedEscape)
      | e :: cs =>
        match unescape? e with
        | none => .error (.behind [c] (.unknownEscape e))
        | some x =>
          match scanString cs with
          | .ok s => .ok ⟨x :: s.content, c :: e :: s.taken, s.rest⟩
          | .error r => .error (r.prepend [c, e])
    else
      match scanString cs with
      | .ok s => .ok ⟨c :: s.content, c :: s.taken, s.rest⟩
      | .error r => .error (r.prepend [c])

/-- The closing quote of a character `x` whose text so far is `taken`. -/
def closeChar (x : Char) (taken : List Char) : List Char → Except Refusal (Scan Char)
  | [] => .error (.atStart .unfinishedChar)
  | c :: cs =>
    if c = '\x27' then .ok ⟨x, taken ++ [c], cs⟩ else .error (.behind taken (.missingQuote c))

def scanChar : List Char → Except Refusal (Scan Char)
  | [] => .error (.atStart .unfinishedChar)
  | c :: cs =>
    if c = '\x27' then .error (.atStart .emptyChar)
    else if isLineEnd c then .error (.atStart .newlineInChar)
    else if c = '\\' then
      match cs with
      | [] => .error (.behind [c] .unfinishedEscape)
      | e :: cs =>
        match unescape? e with
        | none => .error (.behind [c] (.unknownEscape e))
        | some x => closeChar x [c, e] cs
    else closeChar c [c] cs

/-- Puts the opening quote `c` back in front of a quoted literal. -/
def scanQuoted {α : Type} (c : Char) (make : α → Token) :
    Except Refusal (Scan α) → Except Refusal (Scan Token)
  | .ok s => .ok ⟨make s.content, c :: s.taken, s.rest⟩
  | .error r => .error (r.prepend [c])

/-- Whether a row of digits, which may have a point in it, starts with a needless zero. -/
def hasLeadingZero : List Char → Bool
  | '0' :: c :: _ => c ≠ '.'
  | _ => false

/-- A number whose characters are `digits`, if what follows and its first digit allow it. -/
def finishNumber (digits rest : List Char) (token? : Option Token) :
    Except Refusal (Scan Token) :=
  let written := String.ofList digits
  let refuse (flaw : Flaw) : Except Refusal (Scan Token) := .error (.atStart flaw)
  let accept : Except Refusal (Scan Token) :=
    if hasLeadingZero digits then refuse (.leadingZero written)
    else
      match token? with
      | some token => .ok ⟨token, digits, rest⟩
      | none => refuse (.integerRange written)
  match rest with
  | [] => accept
  | c :: _ =>
    if c = '.' then refuse (.manyPoints written)
    else if isLetter c || c = '_' then refuse (.adjacent c written)
    else accept

def pointed (whole fraction : List Char) : Double :=
  ⟨(Decimal.scaledBits (Decimal.digitsValue (whole ++ fraction)) (-fraction.length)).toUInt64⟩

/-- A number; a point makes it a double and needs a digit on both sides. -/
def scanNumber (cs : List Char) : Except Refusal (Scan Token) :=
  let whole := cs.takeWhile isDigit
  match cs.dropWhile isDigit with
  | '.' :: rest =>
    let fraction := rest.takeWhile isDigit
    if fraction.isEmpty then .error (.atStart (.missingDecimal (String.ofList whole)))
    else
      finishNumber (whole ++ '.' :: fraction) (rest.dropWhile isDigit)
        (some (.double (pointed whole fraction)))
  | rest => finishNumber whole rest ((Decimal.readInt64? whole).map Token.int)

def scanSymbol? (cs : List Char) : Option (Scan Token) :=
  (Symbol.all.find? fun s => s.characters.isPrefixOf cs).map fun s =>
    ⟨.symbol s, s.characters, cs.drop s.characters.length⟩

/-- The token at the front of the text `c :: cs`, whose first character is no blank. -/
def scan (c : Char) (cs : List Char) : Except Refusal (Scan Token) :=
  if c = '#' then .ok (scanComment cs)
  else if c = '\x22' then scanQuoted c (fun s => .string (String.ofList s)) (scanString cs)
  else if c = '\x27' then scanQuoted c .char (scanChar cs)
  else if isDigit c then scanNumber (c :: cs)
  else if c = '_' then .error (.atStart .leadingUnderscore)
  else if isLetter c then .ok (scanWord c cs)
  else
    match scanSymbol? (c :: cs) with
    | some s => .ok s
    | none => .error (.atStart (if c = '!' then .loneBang else .unexpected c))

theorem scanString_splits {cs : List Char} {s : Scan (List Char)} (h : scanString cs = .ok s) :
    s.Splits cs := by
  fun_induction scanString cs generalizing s with
  | case1 => cases h
  | case2 => cases h; simp [Scan.Splits]
  | case3 => cases h
  | case4 => cases h
  | case5 => cases h
  | case6 _ _ _ _ _ hs _ _ ih =>
    cases h
    simp [Scan.Splits, (ih hs).2]
  | case7 => cases h
  | case8 _ _ _ _ _ _ hs ih =>
    cases h
    simp [Scan.Splits, (ih hs).2]
  | case9 => cases h

theorem closeChar_splits {x : Char} {taken cs : List Char} {s : Scan Char}
    (h : closeChar x taken cs = .ok s) : s.Splits (taken ++ cs) := by
  unfold closeChar at h
  split at h
  · cases h
  · split at h
    · cases h
      simp [Scan.Splits]
    · cases h

theorem scanChar_splits {cs : List Char} {s : Scan Char} (h : scanChar cs = .ok s) :
    s.Splits cs := by
  fun_cases scanChar cs <;> simp_all [scanChar]
  · exact closeChar_splits h
  · exact closeChar_splits h

theorem scanQuoted_splits {α : Type} {c : Char} {make : α → Token} {cs : List Char}
    {e : Except Refusal (Scan α)} {s : Scan Token} (he : ∀ t, e = .ok t → t.Splits cs)
    (h : scanQuoted c make e = .ok s) : s.Splits (c :: cs) := by
  cases e with
  | error r => simp [scanQuoted] at h
  | ok t =>
    simp only [scanQuoted, Except.ok.injEq] at h
    subst h
    simp [Scan.Splits, (he t rfl).2]

theorem finishNumber_splits {digits rest : List Char} {token? : Option Token} {s : Scan Token}
    (hd : digits ≠ []) (h : finishNumber digits rest token? = .ok s) :
    s.Splits (digits ++ rest) := by
  have accepted : s.taken = digits ∧ s.rest = rest := by
    unfold finishNumber at h
    repeat' split at h
    all_goals simp_all
    all_goals simp [← h]
  simp [Scan.Splits, accepted, hd]

theorem scanNumber_splits {cs : List Char} {s : Scan Token} (hd : cs.takeWhile isDigit ≠ [])
    (h : scanNumber cs = .ok s) : s.Splits cs := by
  have hcs : cs.takeWhile isDigit ++ cs.dropWhile isDigit = cs := List.takeWhile_append_dropWhile
  unfold scanNumber at h
  dsimp only at h
  split at h
  · rename_i rest hrest
    split at h
    · cases h
    · have := finishNumber_splits (by simp [hd]) h
      simpa [← hrest, hcs, List.takeWhile_append_dropWhile] using this
  · simpa [hcs] using finishNumber_splits hd h

theorem scanSymbol?_splits {cs : List Char} {s : Scan Token} (h : scanSymbol? cs = some s) :
    s.Splits cs := by
  simp only [scanSymbol?, Option.map_eq_some_iff] at h
  obtain ⟨m, hm, rfl⟩ := h
  have hp : m.characters <+: cs := by simpa using List.find?_some hm
  obtain ⟨rest, rfl⟩ := hp
  refine ⟨?_, by simp⟩
  cases m <;> simp [Symbol.characters]

/-- A token and what follows it are the whole text. -/
theorem scan_splits {c : Char} {cs : List Char} {s : Scan Token} (h : scan c cs = .ok s) :
    s.Splits (c :: cs) := by
  unfold scan at h
  split at h
  · rename_i hc
    cases h
    simp [Scan.Splits, scanComment, hc, List.takeWhile_append_dropWhile]
  · split at h
    · exact scanQuoted_splits (fun _ => scanString_splits) h
    · split at h
      · exact scanQuoted_splits (fun _ => scanChar_splits) h
      · split at h
        · rename_i hc
          exact scanNumber_splits (by simp [hc]) h
        · split at h
          · cases h
          · split at h
            · cases h
              simp [Scan.Splits, scanWord, List.takeWhile_append_dropWhile]
            · split at h
              · cases h
                exact scanSymbol?_splits (by assumption)
              · cases h

end Token

end RecordLang

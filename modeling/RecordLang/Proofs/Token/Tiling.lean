import Mathlib.Data.List.Forall2
import Mathlib.Data.List.TakeWhile
import RecordLang.Proofs.Token.Written

/-! # Tokens tile their text

The tokens of a text stand side by side in it with nothing but blanks between them. Each is read
from its own characters alone, and its position counts the lines and characters before it.
-/

namespace RecordLang

/-! ## Positions -/

namespace Position

/-- The position of the character with the offset `n`: one line for each line feed before it, and
one column for each character behind the last of them. -/
def ofOffset (cs : List Char) (n : Nat) : Position :=
  ⟨1 + (cs.take n).count '\n', 1 + ((cs.take n).reverse.takeWhile (· ≠ '\n')).length⟩

theorem after_append (p : Position) (cs ds : List Char) :
    p.after (cs ++ ds) = (p.after cs).after ds := List.foldl_append

theorem after_start (cs : List Char) :
    start.after cs = ⟨1 + cs.count '\n', 1 + (cs.reverse.takeWhile (· ≠ '\n')).length⟩ := by
  rw [← cs.reverse_reverse]
  induction cs.reverse with
  | nil => rfl
  | cons c ds ih =>
    rw [List.reverse_cons, after_append, ih]
    by_cases hc : c = '\n'
    · subst hc
      simp [after, next, Nat.add_assoc]
    · simp [after, next, hc, Nat.add_assoc]

theorem ofOffset_eq (cs : List Char) (n : Nat) : ofOffset cs n = start.after (cs.take n) :=
  (after_start _).symm

end Position

/-! ## Reading the characters of a token alone -/

def Scan.alone {α : Type} (s : Scan α) : Scan α := ⟨s.content, s.taken, []⟩

theorem Scan.Splits.exists_tail {α : Type} {s : Scan α} {c : Char} {cs : List Char}
    (h : s.Splits (c :: cs)) : ∃ tail, s.taken = c :: tail := by
  obtain ⟨hne, happ⟩ := h
  cases htaken : s.taken with
  | nil => exact absurd htaken hne
  | cons x tail =>
    rw [htaken] at happ
    cases happ
    exact ⟨tail, rfl⟩

namespace Token

open Text

variable {c : Char} {cs rest : List Char} {s : Scan Token}

theorem dropWhile_takeWhile (p : Char → Bool) (cs : List Char) :
    (cs.takeWhile p).dropWhile p = [] :=
  List.dropWhile_eq_nil_iff.mpr fun _ => List.mem_takeWhile_imp

theorem scanString_alone {s : Scan (List Char)} (h : scanString cs = .ok s) :
    scanString s.taken = .ok s.alone := by
  fun_induction scanString cs generalizing s with
  | case1 => cases h
  | case2 =>
    cases h
    rw [scanString.eq_def]
    rfl
  | case3 => cases h
  | case4 => cases h
  | case5 => cases h
  | case6 e cs x he s' hs _ hline ih =>
    cases h
    simp [scanString, hline, he, ih hs, Scan.alone]
  | case7 => cases h
  | case8 c cs hquote hline hslash s' hs ih =>
    cases h
    rw [scanString.eq_def]
    simp [hquote, hline, hslash, ih hs, Scan.alone]
  | case9 => cases h

theorem closeChar_alone {x : Char} {taken : List Char} {s : Scan Char}
    (h : closeChar x taken cs = .ok s) :
    s.taken = taken ++ ['\x27'] ∧ closeChar x taken ['\x27'] = .ok s.alone := by
  unfold closeChar at h
  split at h
  next => cases h
  next =>
    split at h
    next hc =>
      cases h
      subst hc
      exact ⟨rfl, rfl⟩
    next => cases h

theorem scanChar_alone {s : Scan Char} (h : scanChar cs = .ok s) :
    scanChar s.taken = .ok s.alone := by
  unfold scanChar at h
  split at h
  next => cases h
  next c cs =>
    split at h
    next => cases h
    next hquote =>
      split at h
      next => cases h
      next hline =>
        split at h
        next hslash =>
          subst hslash
          cases cs with
          | nil => cases h
          | cons e cs =>
            dsimp only at h
            split at h
            next => cases h
            next x he =>
              obtain ⟨htaken, hclose⟩ := closeChar_alone h
              rw [htaken]
              simpa [scanChar, hline, he] using hclose
        next hslash =>
          obtain ⟨htaken, hclose⟩ := closeChar_alone h
          rw [htaken]
          simpa [scanChar, hquote, hline, hslash] using hclose

theorem scanQuoted_alone {α : Type} {make : α → Token} {read : List Char → Except Refusal (Scan α)}
    (hread : ∀ {t}, read cs = .ok t → read t.taken = .ok t.alone)
    (h : scanQuoted c make (read cs) = .ok s) :
    ∃ tail, s.taken = c :: tail ∧ scanQuoted c make (read tail) = .ok s.alone := by
  cases ht : read cs with
  | error r =>
    rw [ht] at h
    cases h
  | ok t =>
    rw [ht] at h
    cases h
    refine ⟨t.taken, rfl, ?_⟩
    rw [hread ht]
    rfl

theorem finishNumber_eq_ok {digits : List Char} {token? : Option Token}
    (h : finishNumber digits rest token? = .ok s) :
    hasLeadingZero digits = false ∧ ∃ token, token? = some token ∧ s = ⟨token, digits, rest⟩ := by
  unfold finishNumber at h
  repeat' split at h
  all_goals simp_all

theorem finishNumber_nil {digits : List Char} (h : hasLeadingZero digits = false) (token : Token) :
    finishNumber digits [] (some token) = .ok ⟨token, digits, []⟩ := by
  simp [finishNumber, h]

theorem scanNumber_alone (h : scanNumber cs = .ok s) :
    scanNumber s.taken = .ok s.alone ∧
      ((∃ n, s.content = .int n) ∨ ∃ d, s.content = .double d) := by
  have hwhole : (cs.takeWhile isDigit).takeWhile isDigit = cs.takeWhile isDigit :=
    List.takeWhile_idem
  unfold scanNumber at h
  dsimp only at h
  split at h
  next rest hrest =>
    split at h
    next => cases h
    next hfraction =>
      obtain ⟨hzero, _, ⟨⟩, rfl⟩ := finishNumber_eq_ok h
      refine ⟨?_, .inr ⟨_, rfl⟩⟩
      have hpoint : isDigit '.' = false := by decide
      have hdigits : ∀ x ∈ cs.takeWhile isDigit, isDigit x = true := fun _ => List.mem_takeWhile_imp
      have hfirst : (cs.takeWhile isDigit ++ '.' :: rest.takeWhile isDigit).takeWhile isDigit =
          cs.takeWhile isDigit := by
        rw [List.takeWhile_append_of_pos hdigits]
        simp [hpoint]
      have hsecond : (cs.takeWhile isDigit ++ '.' :: rest.takeWhile isDigit).dropWhile isDigit =
          '.' :: rest.takeWhile isDigit := by
        rw [List.dropWhile_append_of_pos hdigits]
        simp [hpoint]
      simp only [scanNumber, hfirst, hsecond, List.takeWhile_idem, dropWhile_takeWhile]
      rw [if_neg hfraction, finishNumber_nil hzero]
      rfl
  next hrest =>
    obtain ⟨hzero, token, htoken, rfl⟩ := finishNumber_eq_ok h
    obtain ⟨n, hn, rfl⟩ := Option.map_eq_some_iff.mp htoken
    refine ⟨?_, .inl ⟨n, rfl⟩⟩
    simp only [scanNumber, hwhole, dropWhile_takeWhile]
    rw [htoken, finishNumber_nil hzero]
    rfl

theorem scanSymbol?_characters (m : Symbol) :
    scanSymbol? m.characters = some ⟨.symbol m, m.characters, []⟩ := by
  cases m <;> rfl

theorem scanSymbol?_alone (h : scanSymbol? cs = some s) :
    scanSymbol? s.taken = some s.alone ∧ ∃ m, s.content = .symbol m := by
  obtain ⟨m, _, rfl⟩ := Option.map_eq_some_iff.mp h
  exact ⟨scanSymbol?_characters m, m, rfl⟩

theorem ofWord_ne_eof (w : String) : ofWord w ≠ .eof := by
  unfold ofWord
  repeat' split
  all_goals nofun

theorem scanQuoted_ne_eof {α : Type} {make : α → Token} {x : Except Refusal (Scan α)}
    (hmake : ∀ a, make a ≠ .eof) (h : scanQuoted c make x = .ok s) : s.content ≠ .eof := by
  cases x with
  | error r => cases h
  | ok t =>
    cases h
    exact hmake _

/-- A token is read from its own characters alone, and it is not the end of the text. -/
theorem scan_alone (h : scan c cs = .ok s) :
    s.content ≠ .eof ∧ ∃ tail, s.taken = c :: tail ∧ scan c tail = .ok s.alone := by
  have hsplits := scan_splits h
  unfold scan at h
  split at h
  next hc =>
    cases h
    refine ⟨by simp [scanComment], cs.takeWhile (· ≠ '\n'), by rw [hc]; rfl, ?_⟩
    simp only [scan, if_pos hc, scanComment, Scan.alone, List.takeWhile_idem, dropWhile_takeWhile]
  next hhash =>
    split at h
    next hc =>
      obtain ⟨tail, htail, hscan⟩ := scanQuoted_alone scanString_alone h
      refine ⟨scanQuoted_ne_eof (by simp) h, tail, htail, ?_⟩
      rw [scan, if_neg hhash, if_pos hc, hscan]
    next hdouble =>
      split at h
      next hc =>
        obtain ⟨tail, htail, hscan⟩ := scanQuoted_alone scanChar_alone h
        refine ⟨scanQuoted_ne_eof (by simp) h, tail, htail, ?_⟩
        rw [scan, if_neg hhash, if_neg hdouble, if_pos hc, hscan]
      next hsingle =>
        split at h
        next hc =>
          obtain ⟨hscan, hcontent⟩ := scanNumber_alone h
          obtain ⟨tail, htail⟩ := hsplits.exists_tail
          refine ⟨?_, tail, htail, ?_⟩
          · rcases hcontent with ⟨n, hn⟩ | ⟨d, hd⟩
            · simp [hn]
            · simp [hd]
          · rw [scan_of_isDigit hc, ← htail, hscan]
        next hdigit =>
          split at h
          next => cases h
          next hunder =>
            split at h
            next hc =>
              cases h
              refine ⟨ofWord_ne_eof _, cs.takeWhile isWordChar, rfl, ?_⟩
              simp only [scan_of_isLetter hc, scanWord, Scan.alone, List.takeWhile_idem,
                dropWhile_takeWhile]
            next hletter =>
              split at h
              next s' hs =>
                cases h
                obtain ⟨hscan, m, hm⟩ := scanSymbol?_alone hs
                obtain ⟨tail, htail⟩ := hsplits.exists_tail
                refine ⟨by simp [hm], tail, htail, ?_⟩
                rw [scan, if_neg hhash, if_neg hdouble, if_neg hsingle, if_neg hdigit,
                  if_neg hunder, if_neg hletter, ← htail, hscan]
              next => cases h

/-! ## Tiles -/

structure Tile where
  start : Nat
  stop : Nat

namespace Tile

def text (cs : List Char) (t : Tile) : List Char := (cs.take t.stop).drop t.start

def Covers (t : Tile) (i : Nat) : Prop := t.start ≤ i ∧ i < t.stop

/-- The characters of the tile alone are the token, which stands where the tile starts. -/
structure Holds (cs : List Char) (t : Tile) (l : Lexeme) : Prop where
  nonempty : t.start < t.stop
  inside : t.stop ≤ cs.length
  token : l.token ≠ .eof
  alone : lex (String.ofList (t.text cs)) =
    .ok [⟨l.token, .start⟩, ⟨.eof, .ofOffset (t.text cs) (t.text cs).length⟩]
  pos : l.pos = .ofOffset cs t.start

end Tile

/-- The tiles hold all lexemes but the last, which is the end of the text. They stand in order, and
all characters outside of them are blanks. -/
structure Tiling (cs : List Char) (tiles : List Tile) (lexemes : List Lexeme) : Prop where
  holds : ∃ inner, List.Forall₂ (Tile.Holds cs) tiles inner ∧
    lexemes = inner ++ [⟨.eof, .ofOffset cs cs.length⟩]
  ordered : tiles.Pairwise fun t u => t.stop ≤ u.start
  gaps : ∀ i c, cs[i]? = some c → (∀ t ∈ tiles, ¬ t.Covers i) → isBlank c = true

/-- The text from the offset `n` on is cut into tiles, and the lexemes are read from them. -/
inductive Cut (cs : List Char) : Nat → List Tile → List Lexeme → Prop where
  | done {n : Nat} (hblank : ∀ i c, n ≤ i → cs[i]? = some c → isBlank c = true) :
      Cut cs n [] [⟨.eof, .ofOffset cs cs.length⟩]
  | token {n : Nat} {t : Tile} {l : Lexeme} {tiles : List Tile} {later : List Lexeme}
      (hn : n ≤ t.start)
      (hblank : ∀ i c, n ≤ i → i < t.start → cs[i]? = some c → isBlank c = true)
      (ht : t.Holds cs l) (h : Cut cs t.stop tiles later) : Cut cs n (t :: tiles) (l :: later)

namespace Cut

variable {n : Nat} {tiles : List Tile} {lexemes : List Lexeme}

theorem holds (h : Cut cs n tiles lexemes) :
    ∃ inner, List.Forall₂ (Tile.Holds cs) tiles inner ∧
      lexemes = inner ++ [⟨.eof, .ofOffset cs cs.length⟩] := by
  induction h with
  | done _ => exact ⟨[], .nil, rfl⟩
  | token _ _ ht _ ih =>
    obtain ⟨inner, hinner, rfl⟩ := ih
    exact ⟨_ :: inner, .cons ht hinner, rfl⟩

theorem le_start (h : Cut cs n tiles lexemes) : ∀ t ∈ tiles, n ≤ t.start := by
  induction h with
  | done _ => nofun
  | @token n t l tiles later hn _ ht _ ih =>
    intro u hu
    rcases List.mem_cons.mp hu with rfl | hu
    · exact hn
    · have := ht.nonempty
      have := ih u hu
      omega

theorem ordered (h : Cut cs n tiles lexemes) : tiles.Pairwise fun t u => t.stop ≤ u.start := by
  induction h with
  | done _ => exact .nil
  | token _ _ _ h ih => exact .cons h.le_start ih

theorem gaps (h : Cut cs n tiles lexemes) {i : Nat} {c : Char} (hn : n ≤ i)
    (hc : cs[i]? = some c) (hi : ∀ t ∈ tiles, ¬ t.Covers i) : isBlank c = true := by
  induction h with
  | done hblank => exact hblank i c hn hc
  | @token n t l tiles later _ hblank _ _ ih =>
    obtain ⟨ht, hi⟩ := List.forall_mem_cons.mp hi
    rcases Nat.lt_or_ge i t.start with hlt | hge
    · exact hblank i c hn hlt hc
    · exact ih (Nat.le_of_not_lt fun hstop => ht ⟨hge, hstop⟩) hi

end Cut

/-- A text that is read as tokens is blanks, and then its end or a token with the tokens behind. -/
theorem lexFrom_eq_ok {p : Position} {lexemes : List Lexeme} (h : lexFrom p cs = .ok lexemes) :
    ∃ blanks, (∀ x ∈ blanks, isBlank x = true) ∧
      ((cs = blanks ∧ lexemes = [⟨.eof, p.after blanks⟩]) ∨
        ∃ c rest s later, cs = blanks ++ c :: rest ∧ isBlank c = false ∧ scan c rest = .ok s ∧
          lexFrom ((p.after blanks).after s.taken) s.rest = .ok later ∧
          lexemes = ⟨s.content, p.after blanks⟩ :: later) := by
  have happ : cs.takeWhile isBlank ++ cs.dropWhile isBlank = cs := List.takeWhile_append_dropWhile
  refine ⟨cs.takeWhile isBlank, fun _ => List.mem_takeWhile_imp, ?_⟩
  rw [lexFrom] at h
  split at h
  next hrest =>
    cases h
    rw [hrest, List.append_nil] at happ
    exact .inl ⟨happ.symm, rfl⟩
  next c rest hrest =>
    split at h
    next => cases h
    next s hs =>
      split at h
      next => cases h
      next later hlater =>
        cases h
        rw [hrest] at happ
        have hc : isBlank c = false := by
          have hhead := List.head?_dropWhile_not isBlank cs
          simpa [hrest] using hhead
        exact .inr ⟨c, rest, s, later, happ.symm, hc, hs, hlater, rfl⟩

theorem lex_alone (hc : isBlank c = false) (h : scan c cs = .ok s) :
    lex (String.ofList s.taken) =
      .ok [⟨s.content, .start⟩, ⟨.eof, .ofOffset s.taken s.taken.length⟩] := by
  obtain ⟨_, tail, htail, hscan⟩ := scan_alone h
  have hdrop : s.taken.dropWhile isBlank = c :: tail := by
    rw [htail, List.dropWhile_cons_of_neg (by simp [hc])]
  have htake : s.taken.takeWhile isBlank = [] := by
    rw [htail, List.takeWhile_cons_of_neg (by simp [hc])]
  have hlex := lexFrom_of_scan (p := .start) hdrop hscan (lexFrom_of_blanks rfl)
  rw [lex, String.toList_ofList, hlex, htake, Position.ofOffset_eq, List.take_length]
  rfl

section Offsets

variable {n : Nat} {front behind : List Char}

theorem take_of_drop_eq (h : cs.drop n = front ++ behind) :
    (cs.drop n).take front.length = front := by
  rw [h, List.take_left]

theorem drop_of_drop_eq (h : cs.drop n = front ++ behind) :
    cs.drop (n + front.length) = behind := by
  rw [← List.drop_drop, h, List.drop_left]

theorem le_length_of_drop_eq (hn : n ≤ cs.length) (h : cs.drop n = front ++ behind) :
    n + front.length ≤ cs.length := by
  have hlen := congrArg List.length h
  rw [List.length_drop, List.length_append] at hlen
  omega

theorem mem_of_drop_eq (h : cs.drop n = front ++ behind) {i : Nat} (hn : n ≤ i)
    (hi : i < n + front.length) (hc : cs[i]? = some c) : c ∈ front := by
  have hget : front[i - n]? = some c := by
    rw [← List.getElem?_append_left (by omega), ← h, List.getElem?_drop, Nat.add_sub_cancel' hn, hc]
  exact List.mem_of_getElem? hget

theorem after_of_drop_eq (h : cs.drop n = front ++ behind) :
    (Position.ofOffset cs n).after front = .ofOffset cs (n + front.length) := by
  rw [Position.ofOffset_eq, Position.ofOffset_eq, ← Position.after_append, List.take_add,
    take_of_drop_eq h]

end Offsets

theorem lexFrom_cut (cs : List Char) {n : Nat} {lexemes : List Lexeme} (hn : n ≤ cs.length)
    (h : lexFrom (.ofOffset cs n) (cs.drop n) = .ok lexemes) : ∃ tiles, Cut cs n tiles lexemes := by
  -- each token leaves fewer characters to be read
  induction hk : cs.length - n using Nat.strongRecOn generalizing n lexemes with
  | ind k ih =>
    obtain ⟨blanks, hblanks, ⟨hdrop, rfl⟩ | ⟨c, rest, s, later, hdrop, hc, hs, hlater, rfl⟩⟩ :=
      lexFrom_eq_ok h
    · have hall : cs.drop n = blanks ++ [] := by rw [hdrop, List.append_nil]
      have hlen : n + blanks.length = cs.length := by
        rw [← hdrop, List.length_drop]
        omega
      rw [after_of_drop_eq hall, hlen]
      refine ⟨[], .done ?_⟩
      intro i x hi hx
      have := (List.getElem?_eq_some_iff.mp hx).1
      exact hblanks x (mem_of_drop_eq hall hi (by omega) hx)
    · obtain ⟨hne, happ⟩ := scan_splits hs
      have hstart := le_length_of_drop_eq hn hdrop
      have htoken : cs.drop (n + blanks.length) = s.taken ++ s.rest := by
        rw [drop_of_drop_eq hdrop, happ]
      have hstop := le_length_of_drop_eq hstart htoken
      have hpos : 0 < s.taken.length := List.length_pos_iff.mpr hne
      rw [after_of_drop_eq hdrop] at hlater ⊢
      rw [after_of_drop_eq htoken, ← drop_of_drop_eq htoken] at hlater
      obtain ⟨tiles, hcut⟩ := ih _ (by omega) hstop hlater rfl
      refine ⟨⟨n + blanks.length, n + blanks.length + s.taken.length⟩ :: tiles,
        .token (Nat.le_add_right _ _) ?_ ⟨by simpa using hpos, hstop, ?_, ?_, rfl⟩ hcut⟩
      · intro i x hi hlt hx
        exact hblanks x (mem_of_drop_eq hdrop hi hlt hx)
      · exact (scan_alone hs).1
      · have htext : Tile.text cs ⟨n + blanks.length, n + blanks.length + s.taken.length⟩ =
            s.taken := by
          rw [Tile.text, List.drop_take, Nat.add_sub_cancel_left, take_of_drop_eq htoken]
        rw [htext]
        exact lex_alone hc hs

/-- If a text is read as tokens, these tile the text. -/
theorem lexemes_tile_their_text {source : String} {lexemes : List Lexeme}
    (h : lex source = .ok lexemes) : ∃ tiles, Tiling source.toList tiles lexemes := by
  obtain ⟨tiles, hcut⟩ := lexFrom_cut source.toList (Nat.zero_le _) h
  exact ⟨tiles, hcut.holds, hcut.ordered, fun i c => hcut.gaps (Nat.zero_le i)⟩

/-- Tokens with nothing between them, a comment with blanks at its end, letters outside ASCII. -/
def crowded : String := "ä<=15\n#é \r\n\t="

def crowdedTokens : List Lexeme :=
  [⟨.name "ä", ⟨1, 1⟩⟩, ⟨.symbol .lessEq, ⟨1, 2⟩⟩, ⟨.int 15, ⟨1, 4⟩⟩, ⟨.comment "é", ⟨2, 1⟩⟩,
    ⟨.symbol .assign, ⟨3, 2⟩⟩, ⟨.eof, ⟨3, 3⟩⟩]

theorem crowded_text_is_tiled :
    lex crowded = .ok crowdedTokens ∧ ∃ tiles, Tiling crowded.toList tiles crowdedTokens := by
  have h : lex crowded = .ok crowdedTokens := by decide +kernel
  exact ⟨h, lexemes_tile_their_text h⟩

end Token

end RecordLang

import RecordLang.Token.Scan

/-! # Source text as tokens

Blanks separate tokens and are dropped; the last token is the end of the text.
-/

namespace RecordLang

structure LexError where
  pos : Position
  flaw : Flaw
  deriving DecidableEq

def LexError.message (e : LexError) : String := e.pos.remark e.flaw.message

namespace Token

open Text

theorem scan_rest_length {cs rest : List Char} {c : Char} {s : Scan Token}
    (h : cs.dropWhile isBlank = c :: rest) (hs : scan c rest = .ok s) :
    s.rest.length < cs.length := by
  have hlt := (scan_splits hs).rest_length
  have hle := (List.dropWhile_sublist (p := isBlank) (l := cs)).length_le
  rw [h] at hle
  exact Nat.lt_of_lt_of_le hlt hle

def lexFrom (p : Position) (cs : List Char) : Except LexError (List Lexeme) :=
  let start := p.after (cs.takeWhile isBlank)
  match h : cs.dropWhile isBlank with
  | [] => .ok [⟨.eof, start⟩]
  | c :: rest =>
    match hs : scan c rest with
    | .error r => .error ⟨r.position start, r.flaw⟩
    | .ok s =>
      have := scan_rest_length h hs
      match lexFrom (start.after s.taken) s.rest with
      | .error e => .error e
      | .ok later => .ok (⟨s.content, start⟩ :: later)
termination_by cs.length

/-- The tokens of a source text, comments included. -/
def lex (source : String) : Except LexError (List Lexeme) := lexFrom .start source.toList

end Token

end RecordLang

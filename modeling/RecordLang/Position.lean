import RecordLang.Decimal.Integer

/-! # Places in source text

Lines and columns are counted from one; columns count characters, and a line feed ends its line.
-/

namespace RecordLang

structure Position where
  line : Nat
  column : Nat
  deriving DecidableEq, Inhabited

namespace Position

def start : Position := ⟨1, 1⟩

def next (p : Position) (c : Char) : Position :=
  if c = '\n' then ⟨p.line + 1, 1⟩ else ⟨p.line, p.column + 1⟩

def after (p : Position) (cs : List Char) : Position := cs.foldl next p

def remark (p : Position) (message : String) : String :=
  Decimal.natText p.line ++ ":" ++ Decimal.natText p.column ++ ": " ++ message

end Position

end RecordLang

import RecordLang.Text.Pad
import RecordLang.Token

/-! # Token listings

One line for each token: its place, its class and its text, in colour if wanted.
-/

namespace RecordLang.Token

def className : Token → String
  | .comment _ => "COMMENT"
  | .eof => "EOF"
  | .int _ => "INT"
  | .double _ => "DOUBLE"
  | .char _ => "CHAR"
  | .string _ => "STRING"
  | .bool _ => "BOOL"
  | .nil => "NIL"
  | .name _ => "IDENT"
  | .keyword .intType | .keyword .doubleType | .keyword .boolType | .keyword .charType
  | .keyword .stringType | .keyword .voidType => "TYPE"
  | .symbol .openParen | .symbol .closeParen | .symbol .openBrace | .symbol .closeBrace
  | .symbol .comma | .symbol .dot | .symbol .assign => "PUNCT"
  | .symbol .plus | .symbol .minus | .symbol .star | .symbol .slash | .symbol .percent
  | .keyword .negWord => "OP"
  | .symbol .equal | .symbol .notEqual | .symbol .less | .symbol .lessEq | .symbol .greater
  | .symbol .greaterEq => "CMP"
  | .keyword .andWord | .keyword .orWord | .keyword .notWord => "LOGIC"
  | .keyword _ => "KEYWORD"

def styleCode (n : String) : String := "\x1b[" ++ n ++ "m"

def plainStyle : String := styleCode "0"

def style : Token → String
  | .comment _ | .eof => styleCode "2"
  | .string _ | .char _ => styleCode "32"
  | .int _ | .double _ | .bool _ | .nil => styleCode "36"
  | .name _ => styleCode "33"
  | .keyword .negWord | .keyword .notWord => styleCode "35"
  | t => if t.isOperator then styleCode "35" else plainStyle

/-- A place with two digits for each number. -/
def placeColumn (p : Position) : String :=
  let pad (n : Nat) : String := Text.padZeros 2 (Decimal.natText n)
  "[" ++ pad p.line ++ ":" ++ pad p.column ++ "]"

def listingLine (colour : Bool) (l : Lexeme) : String :=
  let body := Text.padRight 8 l.token.className ++ " " ++ l.token.text
  let shown := if colour then l.token.style ++ body ++ plainStyle else body
  placeColumn l.pos ++ " " ++ shown ++ "\n"

def listing (colour : Bool) (tokens : List Lexeme) : String :=
  String.join (tokens.map (listingLine colour))

end RecordLang.Token

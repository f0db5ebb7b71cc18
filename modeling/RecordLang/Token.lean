import RecordLang.Decimal.Shortest
import RecordLang.Position
import RecordLang.Text.Quoted

/-! # Tokens

The words of the language. Keywords and symbols are fixed spellings; literals, names and comments
carry their content. `Token.text` is how a token is shown in listings and messages.
-/

namespace RecordLang

/-- The reserved words, apart from the literals `true`, `false` and `nil`. -/
inductive Keyword where
  | intType | doubleType | boolType | charType | stringType | voidType
  | andWord | orWord | notWord | negWord
  | varWord | typeWord | funWord | newWord | deleteWord | returnWord
  | ifWord | elifWord | elseWord | whileWord | forWord | fromWord | uptoWord | downtoWord
  deriving DecidableEq

namespace Keyword

def all : List Keyword :=
  [.intType, .doubleType, .boolType, .charType, .stringType, .voidType,
    .andWord, .orWord, .notWord, .negWord,
    .varWord, .typeWord, .funWord, .newWord, .deleteWord, .returnWord,
    .ifWord, .elifWord, .elseWord, .whileWord, .forWord, .fromWord, .uptoWord, .downtoWord]

/-- The word that is read as the keyword. -/
def spelling : Keyword → String
  | .intType => "int"
  | .doubleType => "double"
  | .boolType => "bool"
  | .charType => "char"
  | .stringType => "string"
  | .voidType => "void"
  | .andWord => "and"
  | .orWord => "or"
  | .notWord => "not"
  | .negWord => "neg"
  | .varWord => "var"
  | .typeWord => "type"
  | .funWord => "fun"
  | .newWord => "new"
  | .deleteWord => "delete"
  | .returnWord => "return"
  | .ifWord => "if"
  | .elifWord => "elif"
  | .elseWord => "else"
  | .whileWord => "while"
  | .forWord => "for"
  | .fromWord => "from"
  | .uptoWord => "upto"
  | .downtoWord => "downto"

def ofSpelling? (s : String) : Option Keyword := all.find? (·.spelling = s)

/-- How the keyword is shown. -/
def text : Keyword → String
  | .intType => "int"
  | .doubleType => "double"
  | .boolType => "bool"
  | .charType => "char"
  | .stringType => "string"
  | .voidType => "void"
  | .andWord => "and"
  | .orWord => "or"
  | .notWord => "not"
  | .negWord => "neg"
  | .varWord => "var"
  | .typeWord => "type"
  | .funWord => "fun"
  | .newWord => "new"
  | .deleteWord => "delete"
  | .returnWord => "return"
  | .ifWord => "if"
  | .elifWord => "elif"
  | .elseWord => "else"
  | .whileWord => "while"
  | .forWord => "for"
  | .fromWord => "from"
  | .uptoWord => "upto"
  | .downtoWord => "downto"

end Keyword

inductive Symbol where
  | equal | notEqual | lessEq | greaterEq
  | assign | less | greater
  | plus | minus | star | slash | percent
  | comma | dot | openParen | closeParen | openBrace | closeBrace
  deriving DecidableEq

namespace Symbol

/-- Every symbol, those of two characters first, so that the first one that fits is the longest. -/
def all : List Symbol :=
  [.equal, .notEqual, .lessEq, .greaterEq, .assign, .less, .greater, .plus, .minus, .star, .slash,
    .percent, .comma, .dot, .openParen, .closeParen, .openBrace, .closeBrace]

/-- The characters that are read as the symbol. -/
def characters : Symbol → List Char
  | .equal => ['=', '=']
  | .notEqual => ['!', '=']
  | .lessEq => ['<', '=']
  | .greaterEq => ['>', '=']
  | .assign => ['=']
  | .less => ['<']
  | .greater => ['>']
  | .plus => ['+']
  | .minus => ['-']
  | .star => ['*']
  | .slash => ['/']
  | .percent => ['%']
  | .comma => [',']
  | .dot => ['.']
  | .openParen => ['(']
  | .closeParen => [')']
  | .openBrace => ['\x7b']
  | .closeBrace => ['\x7d']

/-- How the symbol is shown. -/
def text : Symbol → String
  | .equal => "=="
  | .notEqual => "!="
  | .lessEq => "<="
  | .greaterEq => ">="
  | .assign => "="
  | .less => "<"
  | .greater => ">"
  | .plus => "+"
  | .minus => "-"
  | .star => "*"
  | .slash => "/"
  | .percent => "%"
  | .comma => ","
  | .dot => "."
  | .openParen => "("
  | .closeParen => ")"
  | .openBrace => "\x7b"
  | .closeBrace => "\x7d"

end Symbol

inductive Token where
  | int (value : Int64)
  | double (value : Double)
  | bool (value : Bool)
  | char (value : Char)
  | string (value : String)
  | nil
  | keyword (word : Keyword)
  | symbol (mark : Symbol)
  | name (text : String)
  | comment (text : String)
  | eof
  deriving DecidableEq

namespace Token

def ofWord (s : String) : Token :=
  if s = "true" then .bool true
  else if s = "false" then .bool false
  else if s = "nil" then .nil
  else
    match Keyword.ofSpelling? s with
    | some k => .keyword k
    | none => .name s

def text : Token → String
  | .int n => Decimal.intText n.toInt
  | .double d => d.text
  | .bool true => "true"
  | .bool false => "false"
  | .char c => "'" ++ Text.asciiEscape c ++ "'"
  | .string s => "\"" ++ Text.asciiForm s ++ "\""
  | .nil => "nil"
  | .keyword k => k.text
  | .symbol s => s.text
  | .name s => s
  | .comment s => "# " ++ s
  | .eof => "end-of-file"

def isPrimitiveType : Token → Bool
  | .keyword .intType | .keyword .doubleType | .keyword .boolType | .keyword .charType
  | .keyword .stringType => true
  | _ => false

/-- Whether the token can continue a chain of operands. -/
def isOperator : Token → Bool
  | .symbol .plus | .symbol .minus | .symbol .star | .symbol .slash | .symbol .percent
  | .symbol .equal | .symbol .notEqual | .symbol .less | .symbol .greater | .symbol .lessEq
  | .symbol .greaterEq | .keyword .andWord | .keyword .orWord => true
  | _ => false

def isComment : Token → Bool
  | .comment _ => true
  | _ => false

end Token

/-- A token where it stands in the source. -/
structure Lexeme where
  token : Token
  pos : Position
  deriving DecidableEq

def dropComments (tokens : List Lexeme) : List Lexeme := tokens.filter (!·.token.isComment)

end RecordLang

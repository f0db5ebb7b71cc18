import RecordLang.Text.Hidden

/-! # Escaped and quoted text

Two ways to show text on one line. The ASCII form escapes both quotes and writes every character
outside printable ASCII by its code point. The quoted form keeps visible characters of any script,
escapes only the quote that encloses it, and writes hidden characters by their code points.
-/

namespace RecordLang.Text

def codePoint (c : Char) : String :=
  "\\u\x7b" ++ String.ofList (Nat.toDigits 16 c.toNat) ++ "\x7d"

/-- The escapes that both forms share: tab, carriage return, line feed and the backslash. -/
def sharedEscape? (c : Char) : Option String :=
  if c = '\t' then some "\\t"
  else if c = '\r' then some "\\r"
  else if c = '\n' then some "\\n"
  else if c = '\\' then some "\\\\"
  else none

def isQuote (c : Char) : Bool := c = '\x22' || c = '\x27'

def asciiEscape (c : Char) : String :=
  match sharedEscape? c with
  | some text => text
  | none =>
    if isQuote c then "\\" ++ c.toString
    else if ' ' ≤ c && c ≤ '~' then c.toString
    else codePoint c

/-- The ASCII form of a text, without enclosing quotes. -/
def asciiForm (s : String) : String := String.join (s.toList.map asciiEscape)

/-- One character of the quoted form inside the given quote. -/
def quotedEscape (quote c : Char) : String :=
  match sharedEscape? c with
  | some text => text
  | none =>
    if c = '\x00' then "\\0"
    else if c = quote then "\\" ++ c.toString
    else if isHidden c then codePoint c
    else c.toString

def quoted (s : String) : String :=
  "\"" ++ String.join (s.toList.map (quotedEscape '\x22')) ++ "\""

/-- A character in single quotes. -/
def quotedChar (c : Char) : String := "'" ++ quotedEscape '\x27' c ++ "'"

end RecordLang.Text

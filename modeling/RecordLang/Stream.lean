import RecordLang.Text.Utf8

/-! # Streams

The input is a list of bytes and is read by lines. The output takes requests to write and to flush,
each of which it may refuse.
-/

namespace RecordLang

inductive Request where
  | write (text : String)
  | flush
  deriving DecidableEq

/-- What has been written, and how many requests there were. `refusal` tells for each request, by
its number, whether it is refused and why. -/
structure Output where
  text : String := ""
  requests : Nat := 0
  refusal : Nat → Request → Option String := fun _ _ => none

namespace Output

def empty : Output := {}

def tick (o : Output) : Output := { o with requests := o.requests + 1 }

/-- Puts a request: the reason if it is refused, and the output afterwards. -/
def ask (o : Output) (r : Request) : Option String × Output :=
  match o.refusal o.requests r, r with
  | some reason, _ => (some reason, o.tick)
  | none, .write s => (none, { o.tick with text := o.text ++ s })
  | none, .flush => (none, o.tick)

/-- Writes a text; an empty text needs no request. -/
def write (o : Output) (s : String) : Option String × Output :=
  if s.isEmpty then (none, o) else o.ask (.write s)

def flush (o : Output) : Option String × Output := o.ask .flush

end Output

/-- The bytes of the first line, its end included, and the bytes behind it. -/
def splitLine : List UInt8 → List UInt8 × List UInt8
  | [] => ([], [])
  | b :: bytes =>
    if b = 10 then ([b], bytes)
    else
      let (line, rest) := splitLine bytes
      (b :: line, rest)

/-- A line without the line feed at its end and the carriage return before that. -/
def dropLineEnd (s : String) : String :=
  match s.toList.reverse with
  | '\n' :: '\r' :: cs => String.ofList cs.reverse
  | '\n' :: cs => String.ofList cs.reverse
  | _ => s

def notText : String := "stream did not contain valid UTF-8"

/-- Reads a line: its text, or none if it is not UTF-8, and the bytes behind it. At the end of the
input the line is empty. -/
def readLine (input : List UInt8) : Option String × List UInt8 :=
  let (line, rest) := splitLine input
  ((Text.ofUtf8? line).map dropLineEnd, rest)

end RecordLang

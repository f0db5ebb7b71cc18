import RecordLang.Bytecode
import RecordLang.Text.Utf8

/-! # Bytecode as bytes

Whole numbers are written in base 128, the low digits first, with the high bit set in all bytes but
the last; signed ones are first folded so that small magnitudes stay short. Texts and lists come
after their lengths, the alternatives of a choice after their numbers. Reading leaves what follows
the bytecode alone.
-/

namespace RecordLang

inductive DecodeError where
  | endOfInput
  | longNumber
  | invalidText
  | invalidBool
  | unknownChoice
  deriving DecidableEq

def DecodeError.message : DecodeError → String
  | .endOfInput => "Hit the end of buffer, expected more data"
  | .longNumber => "Found a varint that didn't terminate. Is the usize too big for this platform?"
  | .invalidText => "Tried to parse invalid utf-8"
  | .invalidBool => "Found a bool that wasn't 0 or 1"
  | .unknownChoice => "Serde Deserialization Error"

namespace Binary

abbrev Bytes := List UInt8

/-! ## Writing -/

def number (n : Nat) : Bytes :=
  if n < 128 then [n.toUInt8] else (n % 128 + 128).toUInt8 :: number (n / 128)

/-- Signed words in the order 0, -1, 1, -2, 2, and so on. -/
def foldSign (n : Int64) : Nat :=
  if 0 ≤ n.toInt then 2 * n.toInt.natAbs else 2 * n.toInt.natAbs - 1

def text (s : String) : Bytes :=
  number (Text.utf8 s).length ++ Text.utf8 s

def many {α : Type} (write : α → Bytes) (items : List α) : Bytes :=
  number items.length ++ items.flatMap write

/-- The lowest `count` bytes of a number, the low ones first. -/
def fixed (n : Nat) : Nat → Bytes
  | 0 => []
  | count + 1 => (n % 256).toUInt8 :: fixed (n / 256) count

def value : Value → Bytes
  | .int n => number 0 ++ number (foldSign n)
  | .double d => number 1 ++ fixed d.bits.toNat 8
  | .bool b => number 2 ++ [if b then 1 else 0]
  | .string s => number 3 ++ text s
  | .object id => number 4 ++ number id
  | .nil => number 5

def opNumber : BinOp → Nat
  | .add => 6
  | .sub => 7
  | .mul => 8
  | .div => 9
  | .mod => 10
  | .and => 12
  | .or => 13
  | .lt => 15
  | .le => 16
  | .gt => 17
  | .ge => 18
  | .eq => 19
  | .ne => 20

def instruction : Instruction → Bytes
  | .push v => number 0 ++ value v
  | .pop => number 1
  | .dup => number 2
  | .swap => number 3
  | .load slot => number 4 ++ number slot
  | .store slot => number 5 ++ number slot
  | .binary op => number (opNumber op)
  | .neg => number 11
  | .not => number 14
  | .jump t => number 21 ++ number t
  | .jumpIfFalse t => number 22 ++ number t
  | .call name => number 23 ++ text name
  | .ret => number 24
  | .write => number 25
  | .read => number 26
  | .length => number 27
  | .charAt => number 28
  | .toInt => number 29
  | .toDouble => number 30
  | .toText => number 31
  | .alloc fields => number 32 ++ many text fields
  | .free => number 33
  | .getField name => number 34 ++ text name
  | .setField name => number 35 ++ text name
  | .nop => number 36

def routine (r : Routine) : Bytes :=
  text r.name ++ number r.arity ++ many instruction r.code.toList

/-! ## Reading -/

/-- A reader takes bytes from the front of the input. -/
abbrev Reader := StateT Bytes (Except DecodeError)

def readByte : Reader UInt8
  | [] => .error .endOfInput
  | b :: rest => .ok (b, rest)

/-- A number of at most `count` bytes, the last of which may be at most `limit`. -/
def readDigits (limit : Nat) : Nat → Reader Nat
  | 0 => throw .longNumber
  | count + 1 => do
    let b ← readByte
    if b.toNat < 128 then
      if count = 0 && limit < b.toNat then throw .longNumber else return b.toNat
    else
      let rest ← readDigits limit count
      return b.toNat - 128 + 128 * rest

/-- A number below `2 ^ 64`. -/
def readNumber : Reader Nat := readDigits 1 10

/-- The number of a choice, below `2 ^ 32`. -/
def readChoice : Reader Nat := readDigits 15 5

def unfoldSign (n : Nat) : Int64 :=
  Int64.ofInt (if n % 2 = 0 then (n / 2 : Nat) else -((n / 2 : Nat) : Int) - 1)

def readBytes (count : Nat) : Reader Bytes := fun bytes =>
  let taken := bytes.take count
  if taken.length < count then .error .endOfInput else .ok (taken, bytes.drop count)

def readText : Reader String := do
  let count ← readNumber
  let bytes ← readBytes count
  match Text.ofUtf8? bytes with
  | some s => return s
  | none => throw .invalidText

def readRow {α : Type} (read : Reader α) : Nat → Reader (List α)
  | 0 => return []
  | count + 1 => do
    let first ← read
    let more ← readRow read count
    return first :: more

def readMany {α : Type} (read : Reader α) : Reader (List α) := do
  let count ← readNumber
  readRow read count

/-- The number whose low bytes come first. -/
def unfixed (bytes : Bytes) : Nat := bytes.foldr (fun b n => b.toNat + 256 * n) 0

def readBool : Reader Bool := do
  let b ← readByte
  if b = 0 then return false else if b = 1 then return true else throw .invalidBool

def readValue : Reader Value := do
  match ← readChoice with
  | 0 => return .int (unfoldSign (← readNumber))
  | 1 => return .double ⟨(unfixed (← readBytes 8)).toUInt64⟩
  | 2 => return .bool (← readBool)
  | 3 => return .string (← readText)
  | 4 => return .object (← readNumber)
  | 5 => return .nil
  | _ => throw .unknownChoice

def readInstruction : Reader Instruction := do
  match ← readChoice with
  | 0 => return .push (← readValue)
  | 1 => return .pop
  | 2 => return .dup
  | 3 => return .swap
  | 4 => return .load (← readNumber)
  | 5 => return .store (← readNumber)
  | 6 => return .binary .add
  | 7 => return .binary .sub
  | 8 => return .binary .mul
  | 9 => return .binary .div
  | 10 => return .binary .mod
  | 11 => return .neg
  | 12 => return .binary .and
  | 13 => return .binary .or
  | 14 => return .not
  | 15 => return .binary .lt
  | 16 => return .binary .le
  | 17 => return .binary .gt
  | 18 => return .binary .ge
  | 19 => return .binary .eq
  | 20 => return .binary .ne
  | 21 => return .jump (← readNumber)
  | 22 => return .jumpIfFalse (← readNumber)
  | 23 => return .call (← readText)
  | 24 => return .ret
  | 25 => return .write
  | 26 => return .read
  | 27 => return .length
  | 28 => return .charAt
  | 29 => return .toInt
  | 30 => return .toDouble
  | 31 => return .toText
  | 32 => return .alloc (← readMany readText)
  | 33 => return .free
  | 34 => return .getField (← readText)
  | 35 => return .setField (← readText)
  | 36 => return .nop
  | _ => throw .unknownChoice

def readRoutine : Reader Routine := do
  let name ← readText
  let arity ← readNumber
  let code ← readMany readInstruction
  return ⟨name, arity, code.toArray⟩

end Binary

namespace Bytecode

def encode (b : Bytecode) : List UInt8 := Binary.many Binary.routine b

def decode (bytes : List UInt8) : Except DecodeError Bytecode :=
  (Binary.readMany Binary.readRoutine bytes).map Prod.fst

end Bytecode

end RecordLang

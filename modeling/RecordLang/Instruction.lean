import RecordLang.Program
import RecordLang.Text.Quoted
import RecordLang.Value

/-! # Instructions

Instructions work on a stack of operands and on numbered local slots. An operator takes its right
operand from the top of the stack and its left operand from below it. Jumps name an instruction of
the same routine by its index.
-/

namespace RecordLang

inductive Instruction where
  | push (value : Value)
  | pop
  | dup
  | swap
  | load (slot : Nat)
  | store (slot : Nat)
  | binary (op : BinOp)
  | neg
  | not
  | jump (target : Nat)
  | jumpIfFalse (target : Nat)
  | call (name : String)
  | ret
  | write
  | read
  | length
  | charAt
  | toInt
  | toDouble
  | toText
  | alloc (fields : List String)
  | free
  | getField (name : String)
  | setField (name : String)
  | nop
  deriving DecidableEq

def BinOp.mnemonic : BinOp → String
  | .add => "ADD"
  | .sub => "SUB"
  | .mul => "MUL"
  | .div => "DIV"
  | .mod => "MOD"
  | .and => "AND"
  | .or => "OR"
  | .eq => "CMPEQ"
  | .ne => "CMPNE"
  | .lt => "CMPLT"
  | .le => "CMPLE"
  | .gt => "CMPGT"
  | .ge => "CMPGE"

def BinOp.report : BinOp → String
  | .add => "Add"
  | .sub => "Sub"
  | .mul => "Mul"
  | .div => "Div"
  | .mod => "Mod"
  | .and => "And"
  | .or => "Or"
  | .eq => "CmpEq"
  | .ne => "CmpNe"
  | .lt => "CmpLt"
  | .le => "CmpLe"
  | .gt => "CmpGt"
  | .ge => "CmpGe"

def Value.report : Value → String
  | .int n => "Integer(" ++ (Value.int n).text ++ ")"
  | .double d => "Double(" ++ (Value.double d).text ++ ")"
  | .bool b => "Bool(" ++ (Value.bool b).text ++ ")"
  | .string s => "String(" ++ Text.quoted s ++ ")"
  | .object id => "Object(" ++ (Value.object id).text ++ ")"
  | .nil => "Nil"

namespace Instruction

def target? : Instruction → Option Nat
  | .jump t | .jumpIfFalse t => some t
  | _ => none

def mnemonic : Instruction → String
  | .push _ => "PUSH"
  | .pop => "POP"
  | .dup => "DUP"
  | .swap => "SWAP"
  | .load _ => "LOAD"
  | .store _ => "STORE"
  | .binary op => op.mnemonic
  | .neg => "NEG"
  | .not => "NOT"
  | .jump _ => "JMP"
  | .jumpIfFalse _ => "JMPF"
  | .call _ => "CALL"
  | .ret => "VRET"
  | .write => "WRITE"
  | .read => "READ"
  | .length => "LEN"
  | .charAt => "GETCHR"
  | .toInt => "TOINT"
  | .toDouble => "TODBL"
  | .toText => "TOSTR"
  | .alloc _ => "ALLOC"
  | .free => "FREE"
  | .getField _ => "GETFLD"
  | .setField _ => "SETFLD"
  | .nop => "NOP"

def operandText? : Instruction → Option String
  | .push (.string s) => some (Text.quoted s)
  | .push v => some v.text
  | .load n | .store n | .jump n | .jumpIfFalse n => some (Decimal.natText n)
  | .call s | .getField s | .setField s => some s
  | .alloc fields => some (", ".intercalate fields)
  | _ => none

/-- An instruction with its operand in parentheses. -/
def text (i : Instruction) : String :=
  match i.operandText? with
  | some operand => i.mnemonic ++ "(" ++ operand ++ ")"
  | none => i.mnemonic

/-- An instruction in the form that reports of internal errors have. -/
def report : Instruction → String
  | .push v => "Push(" ++ v.report ++ ")"
  | .pop => "Pop"
  | .dup => "Dup"
  | .swap => "Swap"
  | .load n => "Load(" ++ Decimal.natText n ++ ")"
  | .store n => "Store(" ++ Decimal.natText n ++ ")"
  | .binary op => op.report
  | .neg => "Neg"
  | .not => "Not"
  | .jump t => "Jmp(" ++ Decimal.natText t ++ ")"
  | .jumpIfFalse t => "Jmpf(" ++ Decimal.natText t ++ ")"
  | .call name => "Call(" ++ Text.quoted name ++ ")"
  | .ret => "Vret"
  | .write => "Write"
  | .read => "Read"
  | .length => "Len"
  | .charAt => "GetChr"
  | .toInt => "ToInt"
  | .toDouble => "ToDbl"
  | .toText => "ToStr"
  | .alloc fields => "Alloc([" ++ ", ".intercalate (fields.map Text.quoted) ++ "])"
  | .free => "Free"
  | .getField name => "GetFld(" ++ Text.quoted name ++ ")"
  | .setField name => "SetFld(" ++ Text.quoted name ++ ")"
  | .nop => "Nop"

/-- How many operands an instruction takes from the stack and how many it puts on it. A call takes
as many as its function has parameters, which `arity` tells for the functions there are. -/
def effect? (arity : String → Option Nat) : Instruction → Option (Nat × Nat)
  | .push _ | .load _ | .read | .alloc _ => some (0, 1)
  | .pop | .store _ | .write | .free | .jumpIfFalse _ | .ret => some (1, 0)
  | .dup => some (1, 2)
  | .swap => some (2, 2)
  | .binary _ | .charAt => some (2, 1)
  | .neg | .not | .length | .toInt | .toDouble | .toText | .getField _ => some (1, 1)
  | .setField _ => some (2, 0)
  | .jump _ | .nop => some (0, 0)
  | .call name => (arity name).map fun n => (n, 1)

end Instruction

end RecordLang

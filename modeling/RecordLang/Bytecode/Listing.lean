import RecordLang.Bytecode
import RecordLang.Text.Pad

/-! # Code listings

One line for each instruction with its index; instructions that jumps lead to are marked, and jumps
show whether they lead up or down.
-/

namespace RecordLang

/-- An index or target with at least four digits. -/
def indexText (n : Nat) : String := Text.padZeros 4 (Decimal.natText n)

namespace Instruction

/-- The text of a jump in a listing, which points towards its target. -/
def jumpText (mnemonic : String) (index target : Nat) : String :=
  let arrow := if target ≤ index then "↑" else "↓"
  Text.padRight 12 mnemonic ++ arrow ++ " " ++ indexText target

/-- The text of the instruction at `index` in a listing. -/
def listed (index : Nat) (i : Instruction) : String :=
  match i.target? with
  | some t => jumpText i.mnemonic index t
  | none => i.text

end Instruction

/-- The line above an instruction that a jump leads to. -/
def targetRule : String := "      ┌──────────────────────────────────\n"

def frameRule : String := String.ofList (List.replicate 40 '═') ++ "\n"

def listingLine (targets : List Nat) (index : Nat) (i : Instruction) : String :=
  let marked := targets.contains index
  (if marked then targetRule else "") ++ indexText index ++
    (if marked then " ► " else "   ") ++ i.listed index ++ "\n"

def codeListing (code : Array Instruction) : String :=
  let targets := code.toList.filterMap Instruction.target?
  String.join (code.toList.mapIdx (listingLine targets))

def Routine.listing (r : Routine) : String :=
  let noun := if r.arity = 1 then " arg" else " args"
  frameRule ++ " " ++ r.name ++ " (" ++ Decimal.natText r.arity ++ noun ++ ")\n " ++
    Decimal.natText r.code.size ++ " instructions\n" ++ frameRule ++ codeListing r.code

def Bytecode.listing (b : Bytecode) : String :=
  "=== BYTECODE PROGRAM ===\n\n" ++ String.join (b.map fun r => r.listing ++ "\n")

end RecordLang

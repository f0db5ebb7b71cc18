import RecordLang.Bytecode

/-! # Balanced routines

A routine is balanced if all ways through it agree on how many operands are on the stack before each
instruction, if the stack never runs short, and if exactly one operand is left where it returns. The
depths are kept in signed words of 64 bits.
-/

namespace RecordLang

inductive Imbalance where
  | runsOff
  | join (seen found : Int64)
  | slot (slot : Nat)
  | unknownCallee (instr : Instruction)
  | underflow (instr : Instruction) (needs has : Int64)
  | atReturn (depth : Int64)
  | target (target : Nat)
  deriving DecidableEq

def depthText (n : Int64) : String := Decimal.intText n.toInt

def Imbalance.text : Imbalance → String
  | .runsOff => "control reaches the end of the frame without VRET"
  | .join seen found =>
    "inconsistent stack depth at join: " ++ depthText seen ++ " vs " ++ depthText found
  | .slot n => "local slot " ++ Decimal.natText n ++ " out of range"
  | .unknownCallee i => "call to unknown function in " ++ i.text
  | .underflow i needs has =>
    "stack underflow at " ++ i.text ++ ": needs " ++ depthText needs ++ ", has " ++ depthText has
  | .atReturn depth => "stack depth before VRET is " ++ depthText depth ++ ", expected 1"
  | .target t => "jump target " ++ Decimal.natText t ++ " out of range"

/-- What is wrong with a routine, and at which instruction. -/
structure BalanceError where
  routine : String
  pc : Nat
  imbalance : Imbalance
  deriving DecidableEq

namespace BalanceError

def text (e : BalanceError) : String := e.imbalance.text

def message (e : BalanceError) : String :=
  "stack-check error in " ++ e.routine ++ " at " ++ Decimal.natText e.pc ++ ": " ++ e.text

end BalanceError

def Instruction.slot? : Instruction → Option Nat
  | .load n | .store n => some n
  | _ => none

/-- Whether control can go on to the instruction behind this one. -/
def Instruction.fallsThrough : Instruction → Bool
  | .jump _ | .ret => false
  | _ => true

namespace Routine

/-- The instructions that control can reach from the instruction `i` at `pc`, with the depths of the
stack there; the instruction behind `i` comes first. -/
def successors (size : Nat) (arities : Table Nat) (pc : Nat) (i : Instruction) (depth : Int64) :
    Except Imbalance (List (Nat × Int64)) :=
  if i.slot?.any (maxLocals ≤ ·) then .error (.slot (i.slot?.getD 0))
  else
    match i.effect? arities.get? with
    | none => .error (.unknownCallee i)
    | some (pops, pushes) =>
      let needs := Int64.ofNat pops
      let after := depth - needs + Int64.ofNat pushes
      if depth < needs then .error (.underflow i needs depth)
      else if i = .ret then
        if depth = 1 then .ok [] else .error (.atReturn depth)
      else
        let behind := if i.fallsThrough then [(pc + 1, after)] else []
        match i.target? with
        | none => .ok behind
        | some t => if t < size then .ok (behind ++ [(t, after)]) else .error (.target t)

theorem countP_set_lt {n : Nat} (seen : Vector (Option Int64) n) {pc : Nat} (h : pc < n)
    (hs : seen[pc] = none) (depth : Int64) :
    (seen.set pc (some depth)).countP Option.isNone < seen.countP Option.isNone := by
  have hpos : 0 < seen.countP Option.isNone :=
    Vector.countP_pos_iff.mpr ⟨none, hs ▸ Vector.getElem_mem h, rfl⟩
  rw [Vector.countP_set]
  simp only [hs, Option.isNone_none, Option.isNone_some, if_true, Bool.false_eq_true, if_false]
  omega

theorem length_successors_le {size pc : Nat} {arities : Table Nat} {i : Instruction} {depth : Int64}
    {next : List (Nat × Int64)} (h : successors size arities pc i depth = .ok next) :
    next.length ≤ 2 := by
  simp only [successors] at h
  repeat' split at h
  all_goals cases h
  all_goals simp

/-- Follows control from the places in `work`, its first entry first. `seen` holds the depth at each
instruction that has been reached. -/
def explore (r : Routine) (arities : Table Nat) (seen : Vector (Option Int64) r.code.size)
    (work : List (Nat × Int64)) : Except BalanceError Unit :=
  match work with
  | [] => .ok ()
  | (pc, depth) :: rest =>
    if h : pc < r.code.size then
      match hs : seen[pc] with
      | some d =>
        if d = depth then r.explore arities seen rest
        else .error ⟨r.name, pc, .join d depth⟩
      | none =>
        match hn : successors r.code.size arities pc r.code[pc] depth with
        | .error e => .error ⟨r.name, pc, e⟩
        | .ok next => r.explore arities (seen.set pc (some depth)) (next ++ rest)
    else .error ⟨r.name, pc, .runsOff⟩
termination_by 2 * seen.countP Option.isNone + work.length
decreasing_by
  · exact Nat.lt_succ_self _
  · have := countP_set_lt seen h hs depth
    have := length_successors_le hn
    simp only [List.length_append, List.length_cons]
    omega

/-- Checks a routine, which starts with its arguments on the stack. -/
def checkBalance (r : Routine) (arities : Table Nat) : Except BalanceError Unit :=
  r.explore arities (Vector.replicate r.code.size none) [(0, Int64.ofNat r.arity)]

end Routine

/-- Checks all routines of a program against each other. -/
def Bytecode.checkBalance (b : Bytecode) : Except BalanceError Unit :=
  b.forM (·.checkBalance (arities b))

end RecordLang

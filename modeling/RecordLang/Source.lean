import RecordLang.Compile.Program
import RecordLang.Machine.Run
import RecordLang.Program.Parse
import RecordLang.Token.Lex
import RecordLang.Typing.Program

/-! # From source text to bytecode

All stages in a row, up to the check that the code is balanced, and a run of the result.
-/

namespace RecordLang

/-- The stage that refuses a source text, with its reason. -/
inductive SourceError where
  | lex (error : LexError)
  | parse (error : ParseError)
  | typing (error : TypeError)
  | compile (error : CompileError)
  | balance (error : BalanceError)

def SourceError.message : SourceError → String
  | .lex e => "lexer error: " ++ e.message
  | .parse e => "parse error: " ++ e.message
  | .typing e => "static error: " ++ e.message
  | .compile e => "compile error: " ++ e.message
  | .balance e => e.message

def Program.ofSource (source : String) : Except SourceError Program := do
  let tokens ← (Token.lex source).mapError .lex
  (Program.parse tokens).mapError .parse

/-- The code of a tree that passes all checks. -/
def Program.build (p : Program) : Except SourceError Bytecode := do
  let catalog ← p.check.mapError .typing
  let code ← (p.compile catalog).mapError .compile
  code.checkBalance.mapError .balance
  return code

def Bytecode.ofSource (source : String) : Except SourceError Bytecode := do
  (← Program.ofSource source).build

inductive RunError where
  | source (error : SourceError)
  | fault (fault : Fault)

def RunError.message : RunError → String
  | .source e => e.message
  | .fault e => e.message

/-- Runs a source text on a fresh machine and yields what it writes. -/
def runSource (fuel : Nat) (config : Config) (source input : String) :
    Option (Except RunError String) :=
  match Bytecode.ofSource source with
  | .error e => some (.error (.source e))
  | .ok code =>
    let fresh : Machine := { config, input := Text.utf8 input }
    (fresh.run fuel code).map fun
      | (.ok _, m) => .ok m.output.text
      | (.error e, _) => .error (.fault e)

end RecordLang

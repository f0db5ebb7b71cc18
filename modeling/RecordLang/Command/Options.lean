import RecordLang.Machine

/-! # Options

What the arguments of a command line say.
-/

namespace RecordLang

structure Options where
  file : Option String := none
  tokens : Bool := false
  colour : Bool := true
  tree : Bool := false
  listing : Bool := false
  emit : Option String := none
  trace : Bool := false
  config : Config := {}

inductive ArgumentError where
  | noPath
  | noNumber (option : String)
  | notNumber (option value : String)
  | unknownOption (option : String)
  | secondFile (file : String)
  deriving DecidableEq

def ArgumentError.message : ArgumentError → String
  | .noPath => "--emit needs an output path"
  | .noNumber option => option ++ " needs a number"
  | .notNumber option value => option ++ " needs a number, got '" ++ value ++ "'"
  | .unknownOption option => "unknown option '" ++ option ++ "'"
  | .secondFile file => "unexpected argument '" ++ file ++ "'"

namespace Options

def switch? (o : Options) : String → Option Options
  | "--tokens" => some { o with tokens := true }
  | "--no-color" => some { o with colour := false }
  | "--ast" => some { o with tree := true }
  | "--bc" => some { o with listing := true }
  | "--bytecode" => some { o with listing := true }
  | "--trace" => some { o with trace := true }
  | "--no-verify" => some { o with config.verify := false }
  | _ => none

/-- What an option that needs a value does with it, which is missing at the end of the line. -/
def valued? (o : Options) (value : Option String) (option : String) :
    Option (Except ArgumentError Options) :=
  let number : Except ArgumentError Nat :=
    match value with
    | none => .error (.noNumber option)
    | some v =>
      match Decimal.readWord? v.toList with
      | some n => .ok n
      | none => .error (.notNumber option v)
  match option with
  | "--emit" =>
    match value with
    | some path => some (.ok { o with emit := some path })
    | none => some (.error .noPath)
  | "--max-steps" => some (number.map fun n => { o with config.maxSteps := some n })
  | "--max-depth" => some (number.map fun n => { o with config.maxDepth := some n })
  | _ => none

/-- Takes an argument that is neither an option nor the value of one. -/
def addFile (o : Options) (arg : String) : Except ArgumentError Options :=
  if arg.startsWith "-" then .error (.unknownOption arg)
  else if o.file.isSome then .error (.secondFile arg)
  else .ok { o with file := some arg }

/-- Takes the arguments from left to right up to the first that makes no sense. -/
def read (o : Options) : List String → Except ArgumentError Options
  | [] => .ok o
  | arg :: rest =>
    match o.switch? arg with
    | some o => o.read rest
    | none =>
      match o.valued? rest.head? arg, rest with
      | some (.error e), _ => .error e
      | some (.ok o), [] => .ok o
      | some (.ok o), _ :: rest => o.read rest
      | none, rest =>
        match o.addFile arg with
        | .ok o => o.read rest
        | .error e => .error e

end Options

end RecordLang

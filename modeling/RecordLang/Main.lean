import RecordLang.Command

/-! # The command line

Files and streams of the system around `Command`.
-/

namespace RecordLang

def failureReason (e : IO.Error) : String :=
  let coded (code : UInt32) (details : String) : String :=
    details ++ " (os error " ++ Decimal.natText code.toNat ++ ")"
  match e with
  | .noFileOrDirectory _ code details => coded code details
  | .permissionDenied _ code details => coded code details
  | .inappropriateType _ code details => coded code details
  | .alreadyExists _ code details => coded code details
  | .otherError code details => coded code details
  | e => toString e

/-- Reads the bytes of a line, its end included. -/
partial def readLineBytes (input : IO.FS.Stream) (line : List UInt8) : IO (List UInt8) := do
  match (← input.read 1).toList with
  | [] => return line.reverse
  | b :: _ => if b = 10 then return (b :: line).reverse else readLineBytes input (b :: line)

def wantsLine (m : Machine) : Bool :=
  match m.frames.head? with
  | some f => f.instr? = some .read
  | none => false

/-- Passes on what the machine has written. -/
def passOn (m : Machine) : IO Machine := do
  if m.output.text.isEmpty then return m
  (← IO.getStdout).putStr m.output.text
  return { m with output.text := "" }

/-- Runs a machine; output and trace go out as they come, and input is read when it is asked for. -/
partial def drive (trace : Bool) (m : Machine) : IO UInt32 := do
  if trace then
    if let some line := m.traceLine? then IO.eprintln line
  let m ←
    if wantsLine m then
      (← IO.getStdout).flush
      pure { m with input := ← readLineBytes (← IO.getStdin) [] }
    else pure m
  match m.step with
  | .running m => drive trace (← passOn m)
  | .stopped exit m =>
    let (result, m) := (← passOn m).conclude exit
    (← IO.getStdout).flush
    discard (passOn m)
    match result with
    | .ok _ => return 0
    | .error e =>
      IO.eprintln e.message
      return 1

def readAll (file : String) : IO ByteArray := do
  (← IO.FS.Handle.mk file .read).readBinToEnd

def refuse (message : String) : IO UInt32 := do
  IO.eprintln message
  return 1

def perform (trace : Bool) : Action → IO UInt32
  | .show text => do
    IO.print text
    return 0
  | .refuse message => refuse message
  | .write path content => do
    match ← (IO.FS.writeBinFile path (ByteArray.mk content.toArray)).toBaseIO with
    | .ok _ => return 0
    | .error e => refuse (writeFailure path (failureReason e))
  | .run m => drive trace m

end RecordLang

open RecordLang in
def main (args : List String) : IO UInt32 := do
  match Command.ofArgs args with
  | .help =>
    IO.print usage
    return 0
  | .missingFile =>
    IO.print usage
    return 1
  | .refuse message => refuse message
  | .openFile kind file options =>
    match ← (readAll file).toBaseIO with
    | .ok content => perform options.trace (options.action kind file content.toList)
    | .error e => refuse (readFailure file (failureReason e))

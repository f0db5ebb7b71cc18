import RecordLang.Bytecode.Binary
import RecordLang.Bytecode.Listing
import RecordLang.Command.Directory
import RecordLang.Command.Options
import RecordLang.Machine.Trace
import RecordLang.Program.Outline
import RecordLang.Source
import RecordLang.Token.Listing

/-! # Commands

What a command line asks for and what comes of it. A command opens at most one file, and then shows
something, writes a file, or runs code.
-/

namespace RecordLang

def usage : String := "\n".intercalate [
  "cinder - statically typed records language on a stack VM",
  "",
  "Usage:",
  "  cinder <file.cdr>                 Compile and run a program",
  "  cinder <file.cbc>                 Run previously emitted bytecode",
  "  cinder --tokens [--no-color] <f>  Show tokens only",
  "  cinder --ast <file.cdr>           Show the program tree",
  "  cinder --bc <file>                Show the disassembled bytecode",
  "  cinder --emit <out.cbc> <file>    Write compiled bytecode",
  "",
  "Options:",
  "  --trace             Trace every instruction to stderr",
  "  --max-steps <N>     Fault after N instructions",
  "  --max-depth <N>     Fault when more than N frames are live",
  "  --no-verify         Skip the stack-balance check on load",
  "  --help, -h          Show this help",
  ""]

/-- What the file that a command opens holds. -/
inductive FileKind where
  | source
  | bytecode
  deriving DecidableEq

def FileKind.ofPath? (path : String) : Option FileKind :=
  match extension? path with
  | some "cdr" => some .source
  | some "cbc" => some .bytecode
  | _ => none

inductive Command where
  | help
  /-- There is nothing to open. -/
  | missingFile
  | refuse (message : String)
  | openFile (kind : FileKind) (file : String) (options : Options)

/-- Arguments that ask for help win over all others. -/
def Command.ofArgs (args : List String) : Command :=
  if args.isEmpty || args.contains "--help" || args.contains "-h" then .help
  else
    match Options.read {} args with
    | .error e => .refuse e.message
    | .ok options =>
      match options.file with
      | none => .missingFile
      | some file =>
        match FileKind.ofPath? file with
        | some kind => .openFile kind file options
        | none => .refuse ("Error: expected a .cdr or .cbc file, got " ++ file)

/-- What is left to do once the file has been read. -/
inductive Action where
  | show (text : String)
  | refuse (message : String)
  | write (path : String) (content : List UInt8)
  | run (machine : Machine)

/-- How a command line reports the refusal of a source text. -/
def SourceError.report : SourceError → String
  | .lex e => "Lexer error: " ++ e.message
  | .parse e => "Parse error: " ++ e.message
  | .typing e => "Static error: " ++ e.message
  | .compile e => "Compile error: " ++ e.message
  | .balance e => e.message

def readFailure (file reason : String) : String := "Failed to read '" ++ file ++ "': " ++ reason

def writeFailure (file reason : String) : String := "Failed to write '" ++ file ++ "': " ++ reason

namespace Options

/-- What to do with code: list it, write it, or else run it. -/
def codeAction (o : Options) (code : Bytecode) : Action :=
  if o.listing then .show code.listing
  else
    match o.emit with
    | some path => .write path code.encode
    | none =>
      let fresh : Machine := { config := o.config }
      match fresh.load code >>= (·.enter "main") with
      | .ok m => .run m
      | .error e => .refuse e.message

def sourceAction (o : Options) (source : String) : Action :=
  if o.tokens then
    match Token.lex source with
    | .ok tokens => .show (Token.listing o.colour tokens)
    | .error e => .refuse (SourceError.lex e).report
  else
    match Program.ofSource source with
    | .error e => .refuse e.report
    | .ok program =>
      if o.tree then .show (program.outline.text ++ "\n")
      else
        match program.build with
        | .ok code => o.codeAction code
        | .error e => .refuse e.report

def action (o : Options) (kind : FileKind) (file : String) (content : List UInt8) : Action :=
  match kind with
  | .source =>
    match Text.ofUtf8? content with
    | some source => o.sourceAction source
    | none => .refuse (readFailure file notText)
  | .bytecode =>
    match Bytecode.decode content with
    | .ok code => o.codeAction code
    | .error e => .refuse ("Invalid bytecode in '" ++ file ++ "': " ++ e.message)

end Options

/-- What a command leaves behind: its exit status, what it wrote to the two output streams, and the
files that it made or changed. -/
structure Report where
  status : Nat := 0
  out : String := ""
  err : String := ""
  written : Directory := []

namespace Report

def failure (message : String) : Report := { status := 1, err := message ++ "\n" }

/-- The report of a run that was made ready. -/
def ofRun (fuel : Nat) (trace : Bool) (m : Machine) : Option Report :=
  let lines := if trace then m.traceFor fuel else []
  let traced := String.join (lines.map (· ++ "\n"))
  (m.runFor fuel).map fun (exit, m) =>
    match m.conclude exit with
    | (.ok _, m) => { out := m.output.text, err := traced }
    | (.error e, m) => { status := 1, out := m.output.text, err := traced ++ e.message ++ "\n" }

def ofAction (fuel : Nat) (trace : Bool) (dir : Directory) (input : List UInt8) :
    Action → Option Report
  | .show text => some { out := text }
  | .refuse message => some (failure message)
  | .write path content =>
    match dir.write path content with
    | .ok after => some { written := after.changesFrom dir }
    | .error e => some (failure (writeFailure path e.message))
  | .run m => ofRun fuel trace { m with input }

/-- The report of a command line that is given in a directory. -/
def ofArgs (fuel : Nat) (dir : Directory) (args : List String) (input : List UInt8) :
    Option Report :=
  match Command.ofArgs args with
  | .help => some { out := usage }
  | .missingFile => some { status := 1, out := usage }
  | .refuse message => some (failure message)
  | .openFile kind file options =>
    match dir.read file with
    | .error e => some (failure (readFailure file e.message))
    | .ok content => ofAction fuel options.trace dir input (options.action kind file content)

end Report

end RecordLang

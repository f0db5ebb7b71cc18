import RecordLang.Table

/-! # Directories

A directory that holds files only, as the place where a command works.
-/

namespace RecordLang

inductive PathError where
  | missing
  | notDirectory
  | isDirectory
  deriving DecidableEq

def PathError.message : PathError → String
  | .missing => "No such file or directory (os error 2)"
  | .notDirectory => "Not a directory (os error 20)"
  | .isDirectory => "Is a directory (os error 21)"

def pathParts (path : String) : List (List Char) := path.toList.splitOn '/'

/-- Whether a part of a path stays where it is. -/
def staysHere (part : List Char) : Bool := part = [] || part = ['.']

/-- The kind of a file by its name: what stands behind the last dot, unless the dot comes first. -/
def extension? (path : String) : Option String :=
  match ((pathParts path).filter fun part => !staysHere part).getLast? with
  | none => none
  | some name =>
    let behind := name.reverse.takeWhile (· ≠ '.')
    let front := name.take (name.length - behind.length - 1)
    if name = ['.', '.'] || behind.length = name.length || front = [] then none
    else some (String.ofList behind.reverse)

/-- The content of files by name. -/
abbrev Directory := Table (List UInt8)

namespace Directory

/-- The name of the file that the parts of a path lead to, which need not exist. -/
def walk (d : Directory) : List (List Char) → Except PathError String
  | [] => .error .missing
  | [name] => if staysHere name then .error .isDirectory else .ok (String.ofList name)
  | part :: rest =>
    if staysHere part then d.walk rest
    else if d.has (String.ofList part) then .error .notDirectory
    else .error .missing

/-- The name of the file that a path leads to; a path from the root leads out of the directory. -/
def resolve (d : Directory) (path : String) : Except PathError String :=
  if path.isEmpty || path.startsWith "/" then .error .missing else d.walk (pathParts path)

def read (d : Directory) (path : String) : Except PathError (List UInt8) := do
  match d.get? (← d.resolve path) with
  | some content => .ok content
  | none => .error .missing

def write (d : Directory) (path : String) (content : List UInt8) : Except PathError Directory := do
  return d.put (← d.resolve path) content

/-- The files of `d` that `before` does not hold with the same content. -/
def changesFrom (d before : Directory) : Directory :=
  d.filter fun (name, content) => before.get? name ≠ some content

end Directory

end RecordLang

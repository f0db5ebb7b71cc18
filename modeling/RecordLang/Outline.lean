/-! # Outlines

Trees as indented text. The parts of a group stand on lines of their own, one step further in and
each with a comma behind it.
-/

namespace RecordLang

inductive Outline where
  | leaf (text : String)
  | labelled (label : String) (part : Outline)
  | group (opening : String) (parts : List Outline) (closing : String)

namespace Outline

def row (parts : List Outline) : Outline := .group "[" parts "]"

/-- A tree with unnamed parts. -/
def node (name : String) (parts : List Outline) : Outline := .group (name ++ "(") parts ")"

/-- A tree with named parts. -/
def fields (name : String) (parts : List (String × Outline)) : Outline :=
  .group (name ++ " \x7b") (parts.map fun (label, part) => .labelled label part) "\x7d"

def optional : Option Outline → Outline
  | some part => .node "Some" [part]
  | none => .leaf "None"

def margin (depth : Nat) : String := String.ofList (List.replicate (4 * depth) ' ')

mutual

/-- The text of a tree whose first line stands at the given depth. -/
def render (depth : Nat) : Outline → String
  | .leaf text => text
  | .labelled label part => label ++ ": " ++ part.render depth
  | .group opening [] closing => opening ++ closing
  | .group opening parts closing =>
    opening ++ "\n" ++ renderParts (depth + 1) parts ++ margin depth ++ closing

def renderParts (depth : Nat) : List Outline → String
  | [] => ""
  | part :: parts => margin depth ++ part.render depth ++ ",\n" ++ renderParts depth parts

end

def text (o : Outline) : String := o.render 0

end Outline

end RecordLang

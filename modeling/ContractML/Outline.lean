/-!
# Outlines

An outline is a tree of named nodes, written with one part on each line and four spaces of
indentation. It shows every detail of a syntax tree.

## Main definitions

* `Outline` — the trees.
* `Outline.render` — the text.
-/

namespace ContractML

/-- A tree to be written out. -/
inductive Outline where
  /-- A text. -/
  | leaf (text : String)
  /-- A node with named parts. -/
  | record (name : String) (fields : List (String × Outline))
  /-- A node with parts in order. -/
  | tuple (name : String) (items : List Outline)
  /-- Nodes in order. -/
  | list (items : List Outline)
  deriving Inhabited

namespace Outline

/-- The line break before a line that is indented by so many levels of four spaces. -/
def newline (indent : Nat) : String := "\n" ++ "".pushn ' ' (4 * indent)

/-- Encloses lines, each with a comma after it. -/
def enclose (opening closing : String) (indent : Nat) (lines : List String) : String :=
  opening ++ String.join (lines.map fun l => newline (indent + 1) ++ l ++ ",") ++
    newline indent ++ closing

mutual

/-- The text of a tree, the lines after the first indented by so many levels. -/
def renderAt (indent : Nat) : Outline → String
  | leaf text => text
  | record name fields =>
    enclose (name ++ " \x7b") "\x7d" indent (renderFields (indent + 1) fields)
  | tuple name items => enclose (name ++ "(") ")" indent (renderItems (indent + 1) items)
  | list items =>
    if items.isEmpty then "[]" else enclose "[" "]" indent (renderItems (indent + 1) items)

/-- The texts of parts in order. -/
def renderItems (indent : Nat) : List Outline → List String
  | [] => []
  | o :: os => o.renderAt indent :: renderItems indent os

/-- The texts of named parts. -/
def renderFields (indent : Nat) : List (String × Outline) → List String
  | [] => []
  | (name, o) :: fs => (name ++ ": " ++ o.renderAt indent) :: renderFields indent fs

end

/-- The text of a tree. -/
def render (o : Outline) : String := o.renderAt 0

end Outline

end ContractML

import ContractML.Decimal.Layout

/-!
# JSON documents

Documents and their texts: a compact one on one line, and one with two spaces of indentation.
Members keep the order in which they were listed, unless a document is sorted first.

## Main definitions

* `Json` — documents.
* `Json.compact`, `Json.pretty` — the two texts.
* `Json.sorted` — the document with its members in the order of their names.
-/

namespace ContractML

/-- A document. -/
inductive Json where
  /-- The null document. -/
  | null
  /-- A truth value. -/
  | bool (b : Bool)
  /-- An integer. -/
  | int (n : Int)
  /-- A floating point number. -/
  | float (x : Float)
  /-- A string. -/
  | str (s : String)
  /-- A list. -/
  | arr (items : List Json)
  /-- Named members. -/
  | obj (members : List (String × Json))
  deriving Inhabited

namespace Json

/-- The characters that stand for a character of a string. -/
def escape (c : Char) : List Char :=
  if c = '"' then ['\\', '"']
  else if c = '\\' then ['\\', '\\']
  else if c = '\x08' then ['\\', 'b']
  else if c = '\t' then ['\\', 't']
  else if c = '\n' then ['\\', 'n']
  else if c = '\x0c' then ['\\', 'f']
  else if c = '\r' then ['\\', 'r']
  else if c.toNat < 0x20 then
    let ds := Nat.toDigits 16 c.toNat
    '\\' :: 'u' :: (List.replicate (4 - ds.length) '0' ++ ds)
  else [c]

/-- The text of a string. -/
def quote (s : String) : String :=
  String.ofList ('"' :: s.toList.flatMap escape ++ ['"'])

/-- The text of a number; one that is not finite is null. -/
def renderFloat (x : Float) : String :=
  match FloatKind.of x with
  | .nan | .infinite _ => "null"
  | _ => Layout.document.render x

mutual

/-- The text of a document on one line. -/
def compact : Json → String
  | null => "null"
  | bool b => if b then "true" else "false"
  | int n => toString n
  | float x => renderFloat x
  | str s => quote s
  | arr items => "[" ++ ",".intercalate (compactItems items) ++ "]"
  | obj members => "\x7b" ++ ",".intercalate (compactMembers members) ++ "\x7d"

/-- The texts of the items of a list. -/
def compactItems : List Json → List String
  | [] => []
  | j :: js => j.compact :: compactItems js

/-- The texts of members. -/
def compactMembers : List (String × Json) → List String
  | [] => []
  | (name, j) :: ms => (quote name ++ ":" ++ j.compact) :: compactMembers ms

end

/-- The line break before a line that is indented by so many levels of two spaces. -/
def newline (indent : Nat) : String := "\n" ++ "".pushn ' ' (2 * indent)

/-- Encloses the texts of items, each on a line of its own. -/
def enclose (opening closing : String) (indent : Nat) : List String → String
  | [] => opening ++ closing
  | items =>
    opening ++ newline (indent + 1) ++ ("," ++ newline (indent + 1)).intercalate items ++
      newline indent ++ closing

mutual

/-- The text of a document, the lines after the first indented by so many levels. -/
def prettyAt (indent : Nat) : Json → String
  | null => "null"
  | bool b => if b then "true" else "false"
  | int n => toString n
  | float x => renderFloat x
  | str s => quote s
  | arr items => enclose "[" "]" indent (prettyItems (indent + 1) items)
  | obj members => enclose "\x7b" "\x7d" indent (prettyMembers (indent + 1) members)

/-- The texts of the items of a list. -/
def prettyItems (indent : Nat) : List Json → List String
  | [] => []
  | j :: js => j.prettyAt indent :: prettyItems indent js

/-- The texts of members. -/
def prettyMembers (indent : Nat) : List (String × Json) → List String
  | [] => []
  | (name, j) :: ms => (quote name ++ ": " ++ j.prettyAt indent) :: prettyMembers indent ms

end

/-- The text of a document with indentation. -/
def pretty (j : Json) : String := j.prettyAt 0

mutual

/-- The document with the members of every object in the order of their names. -/
def sorted : Json → Json
  | arr items => arr (sortedItems items)
  | obj members => obj ((sortedMembers members).mergeSort fun a b => a.1 ≤ b.1)
  | j => j

/-- The items of a list, sorted inside. -/
def sortedItems : List Json → List Json
  | [] => []
  | j :: js => j.sorted :: sortedItems js

/-- Members, sorted inside. -/
def sortedMembers : List (String × Json) → List (String × Json)
  | [] => []
  | (name, j) :: ms => (name, j.sorted) :: sortedMembers ms

end

end Json

end ContractML

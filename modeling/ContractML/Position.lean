import ContractML.Span

/-!
# Lines and columns

A place in a source text as it is shown to users: the line, and the column counted in characters,
both from one.

## Main definitions

* `Position` — a line and a column.
* `Position.after` — the place after a text.
* `Position.advance?` — the place some bytes further.
* `Position.ofOffset` — the place of a byte offset.
-/

namespace ContractML

/-- A place in a source text. -/
structure Position where
  /-- The line, from one. -/
  line : Nat
  /-- The column in characters, from one. -/
  column : Nat
  deriving DecidableEq, Repr, Inhabited

namespace Position

/-- The first place of a text. -/
def first : Position := ⟨1, 1⟩

/-- The place after a character. -/
def step (p : Position) (c : Char) : Position :=
  if c = '\n' then ⟨p.line + 1, 1⟩ else ⟨p.line, p.column + 1⟩

/-- The place after the characters of a text. -/
def after (p : Position) (cs : List Char) : Position := cs.foldl step p

@[simp] theorem after_nil (p : Position) : p.after [] = p := rfl

@[simp] theorem after_append (p : Position) (cs ds : List Char) :
    p.after (cs ++ ds) = (p.after cs).after ds := by
  simp [after]

/-- The place `bytes` bytes further in the text `cs`, which begins at the given line and column. An
offset inside a character, or beyond the end, has no place. -/
def advance? (line column : Nat) (cs : List Char) (bytes : Nat) : Option Position :=
  match cs with
  | [] => if bytes = 0 then some ⟨line, column⟩ else none
  | c :: cs =>
    if bytes = 0 then some ⟨line, column⟩
    else if bytes < c.utf8Size then none
    else if c = '\n' then advance? (line + 1) 1 cs (bytes - c.utf8Size)
    else advance? line (column + 1) cs (bytes - c.utf8Size)

/-- The place of a byte offset in a text. An offset beyond the end, or inside a character, is shown
as the end of the text. -/
def ofOffset (text : List Char) (offset : Nat) : Position :=
  (advance? 1 1 text offset).getD (first.after text)

end Position

end ContractML

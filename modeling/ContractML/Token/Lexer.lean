import ContractML.Text.Blank
import ContractML.Token.Basic

/-!
# Reading tokens

A text is read from left to right. Blank characters and comments, which nest, separate tokens. Of
two symbols that fit, the one of two characters is taken; numbers and words reach as far as
they can.

Positions are byte offsets, so every character counts with the length of its UTF-8 encoding.

## Main definitions

* `skipTrivia` — the first character that belongs to a token.
* `scanToken` — the token that begins with a given character.
* `lex` — the tokens of a text.
-/

namespace ContractML

/-- A place in a text: what is left of it, and the offset at which that begins. -/
structure Cursor where
  /-- The characters from here on. -/
  rest : List Char
  /-- The offset of the first of them. -/
  offset : Nat
  deriving Repr, Inhabited

/-! ### Blanks and comments -/

/-- Skips blanks and comments. Outside a comment `depth` is zero; inside one it counts the comments
that are open, the outermost of which begins at `start`. An open comment at the end of the text
gives the span from its beginning. -/
def skipTrivia : (depth start : Nat) → List Char → Nat → Except Span Cursor
  | 0, _, [], n => .ok ⟨[], n⟩
  | _ + 1, start, [], n => .error ⟨start, n⟩
  | 0, _, '(' :: '*' :: cs, n => skipTrivia 1 n cs (n + 2)
  | d + 1, start, '(' :: '*' :: cs, n => skipTrivia (d + 2) start cs (n + 2)
  | d + 1, start, '*' :: ')' :: cs, n => skipTrivia d start cs (n + 2)
  | 0, start, c :: cs, n =>
    if Text.isBlank c then skipTrivia 0 start cs (n + c.utf8Size) else .ok ⟨c :: cs, n⟩
  | d + 1, start, c :: cs, n => skipTrivia (d + 1) start cs (n + c.utf8Size)

/-! ### Characters and strings -/

/-- The character that a backslash before `c` stands for. -/
def unescape : Char → Char
  | 'n' => '\n'
  | 't' => '\t'
  | 'r' => '\r'
  | '0' => '\x00'
  | c => c

/-- Reads a string up to its closing mark; `acc` holds its characters so far, the last one first. -/
def scanString : (acc : List Char) → List Char → Nat → TokenKind × Cursor
  | _, [], n => (.faulty .unterminatedString, ⟨[], n⟩)
  | acc, '"' :: cs, n => (.str (String.ofList acc.reverse), ⟨cs, n + 1⟩)
  | _, ['\\'], n => (.faulty .unterminatedString, ⟨[], n + 1⟩)
  | acc, '\\' :: c :: cs, n => scanString (unescape c :: acc) cs (n + 1 + c.utf8Size)
  | acc, c :: cs, n => scanString (c :: acc) cs (n + c.utf8Size)

/-- Reads the mark that closes the character `c`. Another character in its place is passed over. -/
def closeChar (c : Char) : List Char → Nat → TokenKind × Cursor
  | [], n => (.faulty .malformedChar, ⟨[], n⟩)
  | '\'' :: cs, n => (.char c, ⟨cs, n + 1⟩)
  | d :: cs, n => (.faulty .malformedChar, ⟨cs, n + d.utf8Size⟩)

/-- Reads a character literal after its opening mark. -/
def scanChar : List Char → Nat → TokenKind × Cursor
  | [], n => (.faulty .malformedChar, ⟨[], n⟩)
  | ['\\'], n => (.faulty .malformedChar, ⟨[], n + 1⟩)
  | '\\' :: c :: cs, n => closeChar (unescape c) cs (n + 1 + c.utf8Size)
  | c :: cs, n => closeChar c cs (n + c.utf8Size)

/-! ### Numbers -/

/-- The digits of a number literal. -/
structure Numeral where
  /-- The digits, the last one first. -/
  digits : List Char
  /-- How many of them stand after a point, if there is one. -/
  places? : Option Nat
  deriving Repr, Inhabited

/-- A numeral with one more digit at its end. -/
def Numeral.push (m : Numeral) (c : Char) : Numeral := ⟨c :: m.digits, m.places?.map (· + 1)⟩

/-- The number that the digits denote. -/
def Numeral.toNat (m : Numeral) : Nat :=
  m.digits.reverse.foldl (fun n c => 10 * n + (c.toNat - '0'.toNat)) 0

/-- Reads digits, underscores and at most one point; `m` holds the digits so far. -/
def scanNumeral : Numeral → List Char → Nat → Numeral × Cursor
  | m, [], n => (m, ⟨[], n⟩)
  | m, c :: cs, n =>
    if c.isDigit then scanNumeral (m.push c) cs (n + 1)
    else if c == '_' then scanNumeral m cs (n + 1)
    else if c == '.' && m.places?.isNone then scanNumeral ⟨m.digits, some 0⟩ cs (n + 1)
    else (m, ⟨c :: cs, n⟩)

/-- The token of a numeral: a floating point number if it has a point, else an integer. -/
def Numeral.toKind (m : Numeral) : TokenKind :=
  match m.places? with
  | some places => .float (Float.ofScientific m.toNat true places)
  | none =>
    if m.toNat < Nat.pow 2 63 then .int (Int64.ofNat m.toNat)
    else .faulty (.intOutOfRange (String.ofList m.digits.reverse))

/-! ### Words -/

/-- Whether a word can begin with the character. -/
def beginsWord (c : Char) : Bool := c.isAlpha || c == '_'

/-- Whether a word can go on with the character. -/
def continuesWord (c : Char) : Bool := c.isAlphanum || c == '_' || c == '\''

/-- The token of a word: a reserved word or a name. -/
def wordKind (s : String) : TokenKind :=
  match Keyword.ofSpelling? s with
  | some k => .keyword k
  | none => .ident s

/-! ### Tokens -/

/-- The token that begins with `c`, before `cs`, at offset `n`; and what follows it. -/
def scanToken (c : Char) (cs : List Char) (n : Nat) : TokenKind × Cursor :=
  match cs.head?.bind (Symbol.ofTwo? c) with
  | some s => (.symbol s, ⟨cs.tail, n + 2⟩)
  | none =>
    match Symbol.ofOne? c with
    | some s => (.symbol s, ⟨cs, n + 1⟩)
    | none =>
      if c == '"' then scanString [] cs (n + 1)
      else if c == '\'' then scanChar cs (n + 1)
      else if c.isDigit then
        let (m, next) := scanNumeral ⟨[c], none⟩ cs (n + 1)
        (m.toKind, next)
      else if beginsWord c then
        let tail := cs.takeWhile continuesWord
        (wordKind (String.ofList (c :: tail)),
          ⟨cs.dropWhile continuesWord, n + 1 + tail.length⟩)
      else (.faulty (.unexpectedChar c), ⟨cs, n + c.utf8Size⟩)

/-- The tokens of the text `cs` that begins at offset `n`, after those in `acc`, at most `fuel` of
them. -/
def lexFrom : (fuel : Nat) → List Char → Nat → Array Token → Array Token
  | 0, _, _, acc => acc
  | fuel + 1, cs, n, acc =>
    match skipTrivia 0 n cs n with
    | .error span => acc.push ⟨.faulty .unterminatedComment, span⟩
    | .ok ⟨[], _⟩ => acc
    | .ok ⟨c :: cs, start⟩ =>
      let (kind, next) := scanToken c cs start
      lexFrom fuel next.rest next.offset (acc.push ⟨kind, ⟨start, next.offset⟩⟩)

/-- The tokens of a text. Every token takes a character, so there are at most as many. -/
def lex (source : String) : List Token :=
  (lexFrom source.toList.length source.toList 0 #[]).toList

example : (lex "x (* (* *) *) ;;").map Token.span = [⟨0, 1⟩, ⟨14, 16⟩] := by decide +kernel

example : (lex "'ab'").map Token.span = [⟨0, 3⟩, ⟨3, 4⟩] := by decide +kernel

end ContractML

import ContractML.Decimal.Layout
import ContractML.Span
import ContractML.Text.Quoted

/-!
# Tokens

A source text is read as a sequence of tokens; its end is the end of the sequence. Text that forms
no token is kept as a faulty one, so that a statement can be given up and the next one still be
read.

## Main definitions

* `Symbol`, `Keyword` — the tokens with a fixed spelling.
* `LexFault` — why a piece of text forms no token.
* `Token` — a kind of token and where it stands.
* `TokenKind.describe` — how a report names a token.
-/

namespace ContractML

/-- Punctuation and operators. -/
inductive Symbol where
  | lparen | rparen | semi | semiSemi | arrow
  | eq | ltGt | eqEq | bangEq | lt | le | gt | ge
  | plus | minus | star | slash | plusDot | minusDot | starDot | slashDot | starStar
  | caret | andAnd | orOr
  deriving DecidableEq, Repr, Inhabited

/-- How a symbol is written. -/
def Symbol.spelling : Symbol → String
  | lparen => "("
  | rparen => ")"
  | semi => ";"
  | semiSemi => ";;"
  | arrow => "->"
  | eq => "="
  | ltGt => "<>"
  | eqEq => "=="
  | bangEq => "!="
  | lt => "<"
  | le => "<="
  | gt => ">"
  | ge => ">="
  | plus => "+"
  | minus => "-"
  | star => "*"
  | slash => "/"
  | plusDot => "+."
  | minusDot => "-."
  | starDot => "*."
  | slashDot => "/."
  | starStar => "**"
  | caret => "^"
  | andAnd => "&&"
  | orOr => "||"

/-- The symbol of two characters that is written as `c` and `d`. -/
def Symbol.ofTwo? : (c d : Char) → Option Symbol
  | ';', ';' => some semiSemi
  | '-', '>' => some arrow
  | '-', '.' => some minusDot
  | '+', '.' => some plusDot
  | '*', '.' => some starDot
  | '*', '*' => some starStar
  | '/', '.' => some slashDot
  | '<', '>' => some ltGt
  | '<', '=' => some le
  | '>', '=' => some ge
  | '=', '=' => some eqEq
  | '!', '=' => some bangEq
  | '&', '&' => some andAnd
  | '|', '|' => some orOr
  | _, _ => none

/-- The symbol that is written as the one character `c`. -/
def Symbol.ofOne? : (c : Char) → Option Symbol
  | '(' => some lparen
  | ')' => some rparen
  | ';' => some semi
  | '+' => some plus
  | '-' => some minus
  | '*' => some star
  | '/' => some slash
  | '^' => some caret
  | '=' => some eq
  | '<' => some lt
  | '>' => some gt
  | _ => none

/-- The reserved words. -/
inductive Keyword where
  | kwLet | kwIn | kwFun | kwIf | kwThen | kwElse | kwContract | kwTrue | kwFalse | kwNot | kwMod
  deriving DecidableEq, Repr, Inhabited

/-- How a reserved word is written. -/
def Keyword.spelling : Keyword → String
  | kwLet => "let"
  | kwIn => "in"
  | kwFun => "fun"
  | kwIf => "if"
  | kwThen => "then"
  | kwElse => "else"
  | kwContract => "contract"
  | kwTrue => "true"
  | kwFalse => "false"
  | kwNot => "not"
  | kwMod => "mod"

/-- The reserved words in the order in which a word is compared with them. -/
def Keyword.all : List Keyword :=
  [kwLet, kwIn, kwFun, kwIf, kwThen, kwElse, kwContract, kwTrue, kwFalse, kwNot, kwMod]

/-- The reserved word that is written as `s`. -/
def Keyword.ofSpelling? (s : String) : Option Keyword :=
  Keyword.all.find? fun k => k.spelling == s

theorem Keyword.ofSpelling?_spelling (k : Keyword) : ofSpelling? k.spelling = some k := by
  cases k <;> decide

/-- Why a piece of text forms no token. -/
inductive LexFault where
  /-- A comment is still open at the end of the text. -/
  | unterminatedComment
  /-- A string is still open at the end of the text. -/
  | unterminatedString
  /-- A quotation mark does not enclose one character. -/
  | malformedChar
  /-- The digits denote no 64-bit integer. -/
  | intOutOfRange (digits : String)
  /-- The character begins no token. -/
  | unexpectedChar (c : Char)
  deriving DecidableEq, Repr, Inhabited

/-- What a report says about text that forms no token. -/
def LexFault.message : LexFault → String
  | unterminatedComment => "unterminated comment"
  | unterminatedString => "unterminated string literal"
  | malformedChar => "malformed character literal"
  | intOutOfRange digits => "integer literal `" ++ digits ++ "` exceeds the range of int"
  | unexpectedChar c => "unexpected character `" ++ c.toString ++ "`"

/-- What a token is. -/
inductive TokenKind where
  /-- Punctuation or an operator. -/
  | symbol (s : Symbol)
  /-- A reserved word. -/
  | keyword (k : Keyword)
  /-- A name. -/
  | ident (name : String)
  /-- An integer literal. -/
  | int (n : Int64)
  /-- A floating point literal. -/
  | float (x : Float)
  /-- A character literal. -/
  | char (c : Char)
  /-- A string literal. -/
  | str (s : String)
  /-- Text that forms no token. -/
  | faulty (fault : LexFault)
  deriving Repr, Inhabited

/-- How a report names a number: by its digits, without a point after a whole number. -/
def floatDigits (x : Float) : String :=
  match FloatKind.of x with
  | .nan => "NaN"
  | .infinite negative => if negative then "-inf" else "inf"
  | _ => Layout.plain.render x

namespace TokenKind

/-- How a report names a token. -/
def describe : TokenKind → String
  | symbol s => "`" ++ s.spelling ++ "`"
  | keyword k => "`" ++ k.spelling ++ "`"
  | ident name => "identifier `" ++ name ++ "`"
  | int n => "`" ++ toString n ++ "`"
  | float x => "`" ++ floatDigits x ++ "`"
  | char c => "`" ++ Text.quoteChar c ++ "`"
  | str s => "`" ++ Text.quoteString s ++ "`"
  | faulty f => f.message

/-- Whether a token can begin an argument of a call. -/
def startsAtom : TokenKind → Bool
  | int _ | float _ | char _ | str _ | ident _ => true
  | keyword .kwTrue | keyword .kwFalse | symbol .lparen => true
  | _ => false

end TokenKind

/-- A token and where it stands. -/
structure Token where
  /-- What the token is. -/
  kind : TokenKind
  /-- Where it stands. -/
  span : Span
  deriving Repr, Inhabited

end ContractML

import ContractML.Expr.Basic
import ContractML.Token.Basic

/-!
# Token streams and syntax errors

A parser reads tokens from a stream. A failing parser leaves the stream at the token it could not
use, from which the next statement can be looked for.

## Main definitions

* `SyntaxError` — what was found in place of what.
* `Stream` — the tokens that are left.
* `Parse` — parsers: functions of a stream that may fail, and that leave a stream either way.
* `Parse.expect`, `Parse.identifier`, `Parse.identifiers` — the parsers that take tokens.
-/

namespace ContractML

/-! ### Syntax errors -/

/-- What a parser asks for. -/
inductive Expectation where
  /-- A certain symbol. -/
  | symbol (s : Symbol)
  /-- A certain reserved word. -/
  | keyword (k : Keyword)
  /-- A name. -/
  | identifier
  /-- The beginning of an expression. -/
  | expression
  deriving DecidableEq, Repr, Inhabited

/-- How a report names what was asked for. -/
def Expectation.describe : Expectation → String
  | symbol s => "expected `" ++ s.spelling ++ "`"
  | keyword k => "expected `" ++ k.spelling ++ "`"
  | identifier => "expected identifier"
  | expression => "expected expression"

/-- Why a parser fails. -/
inductive SyntaxError.Cause where
  /-- The text at hand forms no token. -/
  | lexical (fault : LexFault)
  /-- Another token, or the end of the input, was found than was asked for. -/
  | unexpected (wanted : Expectation) (found : Option TokenKind)
  /-- The parser was not given enough steps; this does not happen to `Program.parse`. -/
  | outOfSteps
  deriving Repr, Inhabited

/-- The text of a cause. -/
def SyntaxError.Cause.message : SyntaxError.Cause → String
  | lexical fault => fault.message
  | unexpected wanted found =>
    wanted.describe ++ ", found " ++ (found.map TokenKind.describe).getD "end of input"
  | outOfSteps => "expression nested too deeply"

/-- A syntax error: its cause, and the token at which it was noticed. -/
structure SyntaxError where
  /-- Why the parser failed. -/
  cause : SyntaxError.Cause
  /-- The token at hand. -/
  span : Span
  deriving Repr, Inhabited

/-- The text of a syntax error. -/
def SyntaxError.message (e : SyntaxError) : String := e.cause.message

/-! ### Streams -/

/-- The tokens that are left to read. -/
structure Stream where
  /-- The tokens. -/
  tokens : List Token
  /-- The end of the token read last. -/
  lastStop : Nat
  /-- The end of the source text. -/
  eof : Nat
  deriving Repr, Inhabited

namespace Stream

/-- The tokens of a source text of `eof` bytes. -/
def ofTokens (tokens : List Token) (eof : Nat) : Stream := ⟨tokens, 0, eof⟩

/-- The token at hand; none at the end of the input. -/
def kind? (s : Stream) : Option TokenKind := s.tokens.head?.map Token.kind

/-- Where the token at hand stands; the end of the input stands after the last byte. -/
def span (s : Stream) : Span := (s.tokens.head?.map Token.span).getD ⟨s.eof, s.eof⟩

/-- The stream after the token at hand. -/
def advance (s : Stream) : Stream :=
  match s.tokens with
  | [] => s
  | t :: ts => ⟨ts, t.span.stop, s.eof⟩

@[simp] theorem kind?_cons (t : Token) (ts : List Token) (lastStop eof : Nat) :
    (Stream.mk (t :: ts) lastStop eof).kind? = some t.kind := rfl

@[simp] theorem span_cons (t : Token) (ts : List Token) (lastStop eof : Nat) :
    (Stream.mk (t :: ts) lastStop eof).span = t.span := rfl

@[simp] theorem advance_cons (t : Token) (ts : List Token) (lastStop eof : Nat) :
    (Stream.mk (t :: ts) lastStop eof).advance = ⟨ts, t.span.stop, eof⟩ := rfl

end Stream

/-! ### Parsers -/

/-- A parser reads a stream; it gives a result or fails, and leaves a stream in both cases. -/
abbrev Parse := EStateM SyntaxError Stream

namespace Parse

/-- The kind of the token at hand. -/
def kind? : Parse (Option TokenKind) := return (← get).kind?

/-- Where the token at hand begins. -/
def start : Parse Nat := return (← get).span.start

/-- The span from `start` to the end of the token read last. -/
def spanFrom (start : Nat) : Parse Span := return ⟨start, (← get).lastStop⟩

/-- Passes over the token at hand. -/
def advance : Parse Unit := modify Stream.advance

/-- Fails at the token at hand. Text that forms no token is reported as such. -/
def unexpected {α : Type} (wanted : Expectation) : Parse α := do
  let s ← get
  match s.kind? with
  | some (.faulty fault) => throw ⟨.lexical fault, s.span⟩
  | found => throw ⟨.unexpected wanted found, s.span⟩

/-- Fails for want of steps. -/
def outOfSteps {α : Type} : Parse α := do throw ⟨.outOfSteps, (← get).span⟩

/-- Whether the symbol `s` is at hand. -/
def atSymbol (s : Symbol) : Parse Bool := do
  match ← kind? with
  | some (.symbol t) => return s = t
  | _ => return false

/-- Whether the reserved word `k` is at hand. -/
def atKeyword (k : Keyword) : Parse Bool := do
  match ← kind? with
  | some (.keyword l) => return k = l
  | _ => return false

/-- Takes the symbol `s`. -/
def expect (s : Symbol) : Parse Unit := do
  if ← atSymbol s then advance else unexpected (.symbol s)

/-- Takes the reserved word `k`. -/
def expectKeyword (k : Keyword) : Parse Unit := do
  if ← atKeyword k then advance else unexpected (.keyword k)

/-- Takes a name. -/
def identifier : Parse Ident := do
  let s ← get
  match s.kind? with
  | some (.ident name) =>
    advance
    return ⟨name, s.span⟩
  | _ => unexpected .identifier

/-- The names at the beginning of the tokens, before `acc` reversed; and the stream after them. -/
def takeIdentifiers (eof : Nat) : (acc : List Ident) → List Token → Nat → List Ident × Stream
  | acc, ⟨.ident name, span⟩ :: ts, _ => takeIdentifiers eof (⟨name, span⟩ :: acc) ts span.stop
  | acc, ts, lastStop => (acc.reverse, ⟨ts, lastStop, eof⟩)

/-- Takes as many names as there are. -/
def identifiers : Parse (List Ident) :=
  modifyGet fun s => takeIdentifiers s.eof [] s.tokens s.lastStop

end Parse

end ContractML

import ContractML.Parser.Grammar
import ContractML.Token.Lexer

/-!
# Reading programs

A program is read statement by statement. A strict reader stops at the first syntax error; a
recovering one drops the malformed statement and goes on after the next `;;`.

## Main definitions

* `Stream.skipStatement` — the place after the next terminator.
* `Program.read` — both readers.
* `Program.parse`, `Program.recover` — the strict reader and the recovering one.
-/

namespace ContractML

/-- The stream after the next `;;`, or at the end of the input. -/
def Stream.skipStatement (s : Stream) : Stream :=
  go s.tokens s.lastStop
where
  /-- Walks over the tokens; `lastStop` is the end of the token before them. -/
  go : List Token → Nat → Stream
    | [], lastStop => ⟨[], lastStop, s.eof⟩
    | ⟨.symbol .semiSemi, span⟩ :: ts, _ => ⟨ts, span.stop, s.eof⟩
    | t :: ts, _ => go ts t.span.stop

/-- What reading a program gives: the statements that were read, and the syntax errors. -/
structure Reading where
  /-- The statements that were read, as a program. -/
  program : Program
  /-- The syntax errors in the order in which they were noticed. -/
  errors : List SyntaxError
  deriving Inhabited

namespace Program

/-- Reads statements to the end of the stream, at most `fuel` of them, with `steps` steps for each.
The accumulators hold the statements and the errors so far, the last one first. A strict reader
stops after an error. -/
def readFrom (recovering : Bool) (steps start : Nat) :
    (fuel : Nat) → Stream → List Stmt → List SyntaxError → Reading
  | 0, s, body, errors => ⟨⟨body.reverse, ⟨start, s.span.stop⟩⟩, errors.reverse⟩
  | fuel + 1, s, body, errors =>
    if s.tokens.isEmpty then ⟨⟨body.reverse, ⟨start, s.span.stop⟩⟩, errors.reverse⟩
    else
      match Parse.statement steps s with
      | .ok stmt next => readFrom recovering steps start fuel next (stmt :: body) errors
      | .error e stuck =>
        if recovering then
          readFrom recovering steps start fuel stuck.skipStatement body (e :: errors)
        else ⟨⟨body.reverse, ⟨start, stuck.span.stop⟩⟩, (e :: errors).reverse⟩

/-- Enough steps to read a statement from so many tokens. -/
def stepsFor (tokens : Nat) : Nat := 8 * tokens + 8

/-- Reads a program, strictly or recovering from errors. Every statement takes a token, so there
are at most as many. -/
def read (recovering : Bool) (source : String) : Reading :=
  let tokens := lex source
  let s := Stream.ofTokens tokens source.utf8ByteSize
  readFrom recovering (stepsFor tokens.length) s.span.start tokens.length s [] []

/-- Reads a program; fails with the first syntax error. -/
def parse (source : String) : Except SyntaxError Program :=
  let reading := read false source
  match reading.errors with
  | [] => .ok reading.program
  | e :: _ => .error e

/-- Reads the well-formed statements of a program, and collects the errors of the others. -/
def recover (source : String) : Reading := read true source

end Program

end ContractML

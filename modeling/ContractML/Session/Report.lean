import ContractML.Expr.Document
import ContractML.Position
import ContractML.Session.Basic

/-!
# Reports of runs

What a run gave, as a JSON document and as lines of text.

## Main definitions

* `Outcome.document`, `StatementResult.document`, `Failure.document` — the parts of the document.
* `Session.report` — the document of the last run.
* `StatementResult.lines` — the lines of text for a statement.
-/

namespace ContractML

/-- The document of a value; a closure is named, not described. -/
def Value.document : Value → Json
  | .int n => .int n.toInt
  | .float x => .float x
  | .bool b => .bool b
  | .char c => .str c.toString
  | .str s => .str s
  | .closure _ => .str "<fun>"

/-- The document of a failure. -/
def Failure.document (f : Failure) : Json :=
  .obj [("kind", .str f.kind), ("message", .str f.message),
    ("span", match f.span? with
      | some s => s.document
      | none => .null)]

/-- The document of an outcome; a value without a name has no such member. -/
def Outcome.document : Outcome → Json
  | finished value name =>
    .obj ([("status", .str "finished"), ("value", value.document),
      ("type", .str value.type.render)] ++
        match name with
        | some n => [("name", .str n)]
        | none => [])
  | errored => .obj [("status", .str "errored")]
  | empty => .obj [("status", .str "empty")]

/-- The document of what a statement gave. -/
def StatementResult.document : StatementResult → Json
  | bound name value =>
    .obj [("kind", .str "bound"), ("name", .str name), ("value", value.document),
      ("type", .str value.type.render)]
  | evaluated value =>
    .obj [("kind", .str "evaluated"), ("value", value.document),
      ("type", .str value.type.render)]
  | contract name written =>
    .obj [("kind", .str "contract"), ("name", .str name), ("contract", .str written)]
  | failed failure => .obj [("kind", .str "failed"), ("error", failure.document)]

namespace Session

/-- The documents of what the statements of the last run gave. -/
def statementsDocument (s : Session) : Json := .arr (s.results.map StatementResult.document)

/-- The documents of the failures of the last run. -/
def failuresDocument (s : Session) : Json := .arr (s.failures.map Failure.document)

/-- The document of the last run. -/
def report (s : Session) : Json :=
  .obj [("outcome", s.outcome.document), ("statements", s.statementsDocument),
    ("errors", s.failuresDocument)]

end Session

/-- The lines of text for a failure in a file that holds `text`. -/
def Failure.lines (file : String) (text : List Char) (f : Failure) : List String :=
  let place := match f.span? with
    | some s =>
      let p := Position.ofOffset text s.start
      ["File \"" ++ file ++ "\", line " ++ toString p.line ++ ", column " ++
        toString p.column ++ ":"]
    | none => []
  let detail := match f with
    | .fault ⟨.contractViolation _ contract value, _⟩ =>
      ["  contract: " ++ contract, "  value: " ++ value]
    | _ => []
  place ++ ["Error: " ++ f.message] ++ detail

/-- The lines of text for a statement of a file that holds `text`. -/
def StatementResult.lines (file : String) (text : List Char) : StatementResult → List String
  | bound name value => ["val " ++ name ++ " : " ++ value.type.render ++ " = " ++ value.render]
  | evaluated value => ["- : " ++ value.type.render ++ " = " ++ value.render]
  | contract name written => ["contract " ++ name ++ " = " ++ written]
  | failed failure => failure.lines file text

end ContractML

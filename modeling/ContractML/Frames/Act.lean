import ContractML.Workspace

/-!
# Acts

An act is an evaluation that may also open frames and write to them. It threads the whole
workspace, and what it has written stays written if it fails.

## Main definitions

* `Act` — evaluations that keep frames and counters.
* `Act.ofEval` — an evaluation that keeps the counters only.
* `Act.get?` — looks up a name in a chain.
* `Workspace.enclose`, `Act.enclose` — opens a frame and binds names in it.
* `Act.enter` — the frames of an environment.
* `Act.locate`, `Act.deeper` — gives a fault a place, and acts inside one more call.
-/

namespace ContractML

/-- Opens a frame inside the innermost frame of a chain, and binds parameters to arguments in it,
the first one first. -/
def Workspace.enclose (w : Workspace) (c : Chain) (params : List String) (args : List Value) :
    Chain × Workspace :=
  let (child, w) := w.extend c
  (child, (params.zip args).foldl (fun w p => w.define child p.1 p.2) w)

/-- An act. -/
abbrev Act := EStateM Fault Workspace

namespace Act

variable {α : Type}

/-- An evaluation that keeps the counters only. -/
def ofEval (x : Eval α) : Act α := fun w =>
  match x w.counters with
  | .ok a c => .ok a { w with counters := c }
  | .error f c => .error f { w with counters := c }

/-- The innermost binding of a name in a chain. -/
def get? (c : Chain) (name : String) : Act (Option Value) := fun w =>
  .ok (w.store.get? c name) w

/-- Opens a frame inside the innermost frame of a chain, with parameters bound to arguments. -/
def enclose (c : Chain) (params : List String) (args : List Value) : Act Chain :=
  modifyGet fun w => w.enclose c params args

/-- The frames of an environment. Variables that the environment itself holds get frames of their
own. -/
def enter : Env → Act Chain
  | .frames c => pure c
  | .bind x v outer => do
    let c ← enter outer
    enclose c [x] [v]
termination_by structural env => env

/-- Gives the fault of an act a place unless it has one. -/
def locate (span : Span) (x : Act α) : Act α := fun w =>
  match x w with
  | .ok a w => .ok a w
  | .error f w => .error (f.locate span) w

/-- Acts inside one more call, unless too many calls are open. The call is closed again whether or
not the act fails. -/
def deeper (x : Act α) : Act α := fun w =>
  if maxCallDepth ≤ w.counters.depth then .error ⟨.callDepthExceeded, none⟩ w
  else
    match x { w with counters.depth := w.counters.depth + 1 } with
    | .ok a w => .ok a { w with counters.depth := w.counters.depth - 1 }
    | .error f w => .error f { w with counters.depth := w.counters.depth - 1 }

end Act

end ContractML

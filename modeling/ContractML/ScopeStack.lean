import ContractML.Expr.Basic
import ContractML.Table

/-!
# Contract scopes

While the monitor visits the right-hand side of a global binding, a scope with the name of the
binding is open. A contract is declared in the innermost open scope, or globally when none is open,
and is found from the innermost scope outwards.

## Main definitions

* `ContractScope`, `ScopeStack` — open scopes over the global declarations.
* `ScopeStack.declare`, `ScopeStack.lookup?` — declaring a contract and finding it.
* `ScopeStack.within` — work done inside a scope of its own.
-/

namespace ContractML

/-- An open scope. -/
structure ContractScope where
  /-- The binding whose right-hand side is visited. -/
  name : String
  /-- The contracts declared inside. -/
  contracts : Table ContractExpr

/-- The open scopes, the innermost one first, over the global declarations. -/
structure ScopeStack where
  /-- The contracts declared outside every scope. -/
  globals : Table ContractExpr
  /-- The open scopes. -/
  scopes : List ContractScope

namespace ScopeStack

/-- No open scopes and no declarations. -/
def empty : ScopeStack := ⟨.empty, []⟩

instance : Inhabited ScopeStack := ⟨empty⟩

/-- The number of open scopes. -/
def depth (s : ScopeStack) : Nat := s.scopes.length

/-- The name of the innermost open scope. -/
def current? (s : ScopeStack) : Option String := s.scopes.head?.map ContractScope.name

/-- Opens a scope. -/
def push (s : ScopeStack) (name : String) : ScopeStack :=
  { s with scopes := ⟨name, .empty⟩ :: s.scopes }

/-- Closes the innermost scope, if one is open. -/
def pop (s : ScopeStack) : ScopeStack := { s with scopes := s.scopes.tail }

/-- Declares the contract of a name in the innermost open scope, or globally. -/
def declare (s : ScopeStack) (name : String) (c : ContractExpr) : ScopeStack :=
  match s.scopes with
  | [] => { s with globals := s.globals.insert name c }
  | f :: fs => { s with scopes := { f with contracts := f.contracts.insert name c } :: fs }

/-- The contract of a name: the innermost scope that declares one, else the global declaration. -/
def lookup? (s : ScopeStack) (name : String) : Option ContractExpr :=
  (s.scopes.findSome? fun f => f.contracts.get? name).or (s.globals.get? name)

/-- Does some work inside a scope of its own, and closes the innermost scope after it. -/
def within {α : Type} (name : String) (work : StateM ScopeStack α) : StateM ScopeStack α := do
  modify fun s => s.push name
  let a ← work
  modify pop
  return a

@[simp] theorem pop_push (s : ScopeStack) (name : String) : (s.push name).pop = s := rfl

@[simp] theorem depth_push (s : ScopeStack) (name : String) :
    (s.push name).depth = s.depth + 1 := rfl

@[simp] theorem current?_push (s : ScopeStack) (name : String) :
    (s.push name).current? = some name := rfl

/-- Opening a scope hides no contract. -/
@[simp] theorem lookup?_push (s : ScopeStack) (scope name : String) :
    (s.push scope).lookup? name = s.lookup? name := rfl

/-- After a declaration a name has the declared contract, and every other name the one it had. -/
theorem lookup?_declare (s : ScopeStack) (a b : String) (c : ContractExpr) :
    (s.declare a c).lookup? b = if a = b then some c else s.lookup? b := by
  obtain ⟨globals, scopes⟩ := s
  cases scopes with
  | nil => simp [declare, lookup?]
  | cons f fs => by_cases h : a = b <;> simp [declare, lookup?, List.findSome?_cons, h]

end ScopeStack

end ContractML

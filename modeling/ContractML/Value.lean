import ContractML.Expr.Printer
import ContractML.Primitive.Basic
import ContractML.Ty

/-!
# Values

Values are primitive values and closures. A closure is a primitive function with a declared type, a
function of the language with the environment it was made in, or a closure wrapped by a function
contract that checks every call.

Every closure has an identity, a number that no other closure has, by which `==` compares it.

An environment is a chain of bindings over a chain of frames. Bindings of local variables and
parameters never change and are part of the environment itself; frames can be written to and are
kept in a `Store`.

## Main definitions

* `Value`, `Closure`, `Contract`, `Env` — values, closures, contracts ready to check, environments.
* `Chain` — a frame of a store with the frames around it.
* `Value.type`, `Closure.arity` — what is known of a value.
* `Value.render`, `Closure.describe` — written forms.
-/

namespace ContractML

/-- A frame of a store, by its number, and the frames around it, the outermost one last. -/
structure Chain where
  /-- The innermost frame. -/
  frame : Nat
  /-- The frames around it. -/
  outer : List Nat
  deriving DecidableEq, Repr, Inhabited

/-- The number of frames around a frame. -/
def Chain.depth (c : Chain) : Nat := c.outer.length

/-- Whether no frame is around a frame. -/
def Chain.isGlobal (c : Chain) : Bool := c.outer.isEmpty

/-- The outermost frame of a chain. -/
def Chain.root (c : Chain) : Chain := ⟨c.outer.getLast?.getD c.frame, []⟩

mutual

/-- A value. -/
inductive Value where
  /-- An integer. -/
  | int (n : Int64)
  /-- A floating point number. -/
  | float (x : Float)
  /-- A truth value. -/
  | bool (b : Bool)
  /-- A character. -/
  | char (c : Char)
  /-- A string. -/
  | str (s : String)
  /-- A closure. -/
  | closure (c : Closure)

/-- A value that can be applied. -/
inductive Closure where
  /-- A primitive function under a name and a type. -/
  | native (id : Nat) (name : String) (type : Ty) (body : Primitive)
  /-- A function of the language. -/
  | user (id : Nat) (params : List String) (body : Expr) (env : Env)
  /-- A closure whose calls are checked: a bad result is blamed on `pos`, a bad argument on
  `neg`. -/
  | monitored (id : Nat) (inner : Closure) (domain : List Contract) (range : Contract)
      (pos neg : String)

/-- A contract whose predicates have been evaluated. -/
inductive Contract where
  /-- A predicate, and how the contract is written. -/
  | base (predicate : Closure) (label : String)
  /-- The contracts of arguments and result, and how the contract is written. -/
  | function (domain : List Contract) (range : Contract) (label : String)

/-- An environment. -/
inductive Env where
  /-- Frames of the store. -/
  | frames (chain : Chain)
  /-- A variable bound over an environment. -/
  | bind (name : String) (value : Value) (outer : Env)

end

instance : Inhabited Value := ⟨.bool true⟩
instance : Inhabited Closure := ⟨.native 0 "" (.fn [] (.var 0)) .any⟩
instance : Inhabited Contract := ⟨.base default ""⟩
instance : Inhabited Env := ⟨.frames default⟩

/-- The value of a literal. -/
def Literal.toValue : Literal → Value
  | .int n => .int n
  | .float x => .float x
  | .bool b => .bool b
  | .char c => .char c
  | .str s => .str s

namespace Closure

/-- The number of arguments that a closure takes. -/
def arity : Closure → Nat
  | native _ _ type _ => type.arity?.getD 0
  | user _ params _ _ => params.length
  | monitored _ inner _ _ _ _ => inner.arity

/-- The type of a closure. Of a function of the language only the number of parameters is known,
and a wrapper has the type of what it wraps. -/
def type : Closure → Ty
  | native _ _ type _ => type
  | user _ params _ _ => .polymorphic params.length
  | monitored _ inner _ _ _ _ => inner.type

/-- Whether two closures are one and the same. -/
def same : Closure → Closure → Bool
  | native i _ _ _, native j _ _ _ => i == j
  | user i _ _ _, user j _ _ _ => i == j
  | monitored i _ _ _ _ _, monitored j _ _ _ _ _ => i == j
  | _, _ => false

/-- What a closure is, for inspection. -/
def describe : Closure → String
  | native _ name type _ => "<native " ++ name ++ " : " ++ type.render ++ ">"
  | user _ params _ _ => "<fun " ++ " ".intercalate params ++ ">"
  | monitored _ inner _ _ pos _ => "<monitored " ++ inner.describe ++ " by " ++ pos ++ ">"

end Closure

namespace Contract

/-- How a contract is written. -/
def label : Contract → String
  | base _ label => label
  | function _ _ label => label

end Contract

namespace Value

/-- The type of a value. -/
def type : Value → Ty
  | int _ => .int
  | float _ => .float
  | bool _ => .bool
  | char _ => .char
  | str _ => .string
  | closure c => c.type

/-- The written form of a floating point number: a whole number ends in a point. -/
def renderFloat (x : Float) : String :=
  match FloatKind.of x with
  | .nan => "nan"
  | .infinite negative => if negative then "neg_infinity" else "infinity"
  | .whole => Layout.plain.render x ++ "."
  | .fractional => Layout.plain.render x

/-- The written form of a value. -/
def render : Value → String
  | int n => toString n
  | float x => renderFloat x
  | bool b => if b then "true" else "false"
  | char c => Text.quoteChar c
  | str s => Text.quoteString s
  | closure _ => "<fun>"

end Value

namespace Env

/-- Binds parameters to arguments, the first one first; a later binding hides an earlier one. -/
def bindAll (env : Env) (params : List String) (args : List Value) : Env :=
  (params.zip args).foldl (fun env p => .bind p.1 p.2 env) env

/-- The outermost frame of an environment. -/
def root : Env → Env
  | frames chain => frames chain.root
  | bind _ _ outer => outer.root

end Env

end ContractML

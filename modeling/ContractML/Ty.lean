/-!
# Types

Types describe values at run time; nothing infers them. A primitive value has its primitive type, a
function written in the language has a type with a variable for each parameter, and a built-in
function declares the type that its arguments are checked against.

## Main definitions

* `Ty` — primitive types, variables and function types.
* `Ty.accepts` — whether a value of one type may stand where another is expected.
* `Ty.polymorphic` — the type of a function of which only the number of parameters is known.
* `Ty.render` — the written form.
-/

namespace ContractML

/-- The types of primitive values. -/
inductive PrimTy where
  /-- Integers of 64 bits. -/
  | int
  /-- Floating point numbers of 64 bits. -/
  | float
  /-- Truth values. -/
  | bool
  /-- Characters. -/
  | char
  /-- Strings. -/
  | string
  deriving DecidableEq, Repr, Inhabited

/-- The written form of a primitive type. -/
def PrimTy.render : PrimTy → String
  | int => "int"
  | float => "float"
  | bool => "bool"
  | char => "char"
  | string => "string"

/-- Types of values. -/
inductive Ty where
  /-- A primitive type. -/
  | prim (p : PrimTy)
  /-- A type variable, which stands for any type. -/
  | var (id : Nat)
  /-- The functions from parameters to a result. -/
  | fn (params : List Ty) (result : Ty)
  deriving Repr, Inhabited

namespace Ty

/-- The type of integers. -/
abbrev int : Ty := .prim .int
/-- The type of floating point numbers. -/
abbrev float : Ty := .prim .float
/-- The type of truth values. -/
abbrev bool : Ty := .prim .bool
/-- The type of characters. -/
abbrev char : Ty := .prim .char
/-- The type of strings. -/
abbrev string : Ty := .prim .string

/-- The type of a function of `n` parameters about which nothing else is known: the parameters
have the variables `0` to `n - 1`, the result has the variable `n`. -/
def polymorphic (n : Nat) : Ty := .fn ((List.range n).map .var) (.var n)

/-- The number of parameters of a function type. -/
def arity? : Ty → Option Nat
  | .fn params _ => some params.length
  | _ => none

@[simp] theorem arity?_polymorphic (n : Nat) : (polymorphic n).arity? = some n := by
  simp [polymorphic, arity?]

/-- Whether a value of type `actual` may stand where `expected` is asked for. A variable accepts
everything, and function types are compared by their number of parameters alone. -/
def accepts : (expected actual : Ty) → Bool
  | .var _, _ => true
  | .prim p, .prim q => p == q
  | .fn ps _, .fn qs _ => ps.length == qs.length
  | _, _ => false

/-- Every type accepts itself. -/
@[simp] theorem accepts_self (t : Ty) : t.accepts t = true := by
  cases t <;> simp [accepts]

/-- The written form of a variable: a letter, then the number of times the alphabet was used up. -/
def renderVar (id : Nat) : String :=
  let letter := Char.ofNat (97 + id % 26)
  let turns := if id < 26 then "" else toString (id / 26)
  "'" ++ letter.toString ++ turns

/-- Whether a type is a function type. -/
def isFn : Ty → Bool
  | .fn _ _ => true
  | _ => false

mutual

/-- The written form of a type. -/
def render : Ty → String
  | .prim p => p.render
  | .var id => renderVar id
  | .fn params result => renderParams params ++ result.render

/-- The parameters of a function type, each before an arrow. A parameter that is itself a function
type stands in parentheses. -/
def renderParams : List Ty → String
  | [] => ""
  | t :: ts =>
    (if t.isFn then "(" ++ t.render ++ ")" else t.render) ++ " -> " ++ renderParams ts

end

example : (Ty.fn [.fn [.int] .bool, .var 27] .float).render = "(int -> bool) -> 'b1 -> float" := by
  decide +kernel

end Ty

end ContractML

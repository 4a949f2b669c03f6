import ContractML.Table
import ContractML.Value

/-!
# Stores

A store holds the frames whose bindings can change: the global frame of a session, and those that a
host opens inside it. An environment refers to frames by number.

## Main definitions

* `Store` — numbered frames.
* `Store.define`, `Store.extend` — binding a name in a frame, and opening a frame inside another.
* `Env.get?` — the innermost binding of a name.
-/

namespace ContractML

/-- Numbered frames. -/
structure Store where
  /-- The frames. -/
  frames : Array (Table Value)

namespace Store

/-- A store with one frame, which is empty. -/
def init : Store := ⟨#[.empty]⟩

instance : Inhabited Store := ⟨init⟩

/-- The first frame of a store. -/
def global : Chain := ⟨0, []⟩

/-- The bindings of a frame; a frame that does not exist has none. -/
def frame (s : Store) (i : Nat) : Table Value := s.frames[i]?.getD .empty

/-- Binds a name in the innermost frame of a chain. -/
def define (s : Store) (c : Chain) (name : String) (value : Value) : Store :=
  ⟨s.frames.modify c.frame fun t => t.insert name value⟩

/-- Opens an empty frame inside the innermost frame of a chain. -/
def extend (s : Store) (c : Chain) : Chain × Store :=
  (⟨s.frames.size, c.frame :: c.outer⟩, ⟨s.frames.push .empty⟩)

/-- The binding of a name in the first of the frames that has one. -/
def getIn? (s : Store) : List Nat → String → Option Value
  | [], _ => none
  | i :: is, name => ((s.frame i).get? name).or (s.getIn? is name)

/-- The innermost binding of a name in a chain. -/
def get? (s : Store) (c : Chain) (name : String) : Option Value :=
  s.getIn? (c.frame :: c.outer) name

/-- The names bound in the innermost frame of a chain, in ascending order. -/
def names (s : Store) (c : Chain) : List String := (s.frame c.frame).names

/-- What a frame is, for inspection. -/
def describe (s : Store) (c : Chain) : String :=
  "Env \x7b names: [" ++ ", ".intercalate ((s.names c).map Text.quoteString) ++ "], depth: " ++
    toString c.depth ++ " \x7d"

@[simp] theorem frame_init (i : Nat) : init.frame i = .empty := by
  cases i with
  | zero => rfl
  | succ i => rfl

/-- Binding a name changes the frame it is bound in, and no other. -/
theorem frame_define (s : Store) (c : Chain) (name : String) (value : Value) (i : Nat) :
    (s.define c name value).frame i =
      if c.frame = i ∧ i < s.frames.size then (s.frame i).insert name value else s.frame i := by
  by_cases hi : i < s.frames.size
  · by_cases hc : c.frame = i <;> simp [define, frame, Array.getElem_modify, hi, hc]
  · simp [define, frame, hi]

end Store

/-- The innermost binding of a name. -/
def Env.get? (store : Store) : Env → String → Option Value
  | .frames chain, name => store.get? chain name
  | .bind x v outer, name => if x = name then some v else outer.get? store name

@[simp] theorem Env.get?_frames (store : Store) (c : Chain) (name : String) :
    (Env.frames c).get? store name = store.get? c name := rfl

@[simp] theorem Env.get?_bind (store : Store) (x : String) (v : Value) (outer : Env)
    (name : String) :
    (Env.bind x v outer).get? store name = if x = name then some v else outer.get? store name :=
  rfl

end ContractML

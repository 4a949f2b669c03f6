import ContractML.Eval.Expr
import ContractML.Primitive.Registration

/-!
# Workspaces

A workspace is what evaluations share: the frames, and the counters that go on from one evaluation
to the next.

## Main definitions

* `Workspace` — frames and counters.
* `Workspace.evaluate` — an evaluation over the frames.
* `Workspace.register`, `Workspace.install` — primitive functions bound in a frame.
* `Workspace.registered` — the workspace after a registration.
-/

namespace ContractML

/-- Frames and counters. -/
structure Workspace where
  /-- The frames. -/
  store : Store
  /-- The counters. -/
  counters : Counters

namespace Workspace

variable {α : Type}

/-- One empty frame, no identities given out, and no open calls. -/
def init : Workspace := ⟨.init, ⟨0, 0⟩⟩

instance : Inhabited Workspace := ⟨init⟩

/-- The outcome of an evaluation over the frames. The counters go on whether or not it fails, and
the frames stay as they are. -/
def evaluate (w : Workspace) (x : Store → Eval α) : Except Fault α × Workspace :=
  match x w.store w.counters with
  | .ok a counters => (.ok a, { w with counters := counters })
  | .error f counters => (.error f, { w with counters := counters })

@[simp] theorem store_evaluate (w : Workspace) (x : Store → Eval α) :
    (w.evaluate x).2.store = w.store := by
  unfold evaluate
  split <;> rfl

/-- Binds a name in the innermost frame of a chain. -/
def define (w : Workspace) (c : Chain) (name : String) (value : Value) : Workspace :=
  { w with store := w.store.define c name value }

/-- Opens a frame inside the innermost frame of a chain. -/
def extend (w : Workspace) (c : Chain) : Chain × Workspace :=
  let (child, store) := w.store.extend c
  (child, { w with store := store })

/-- A new identity. -/
def fresh (w : Workspace) : Nat × Workspace :=
  (w.counters.identity, { w with counters.identity := w.counters.identity + 1 })

/-- Binds a primitive function in the innermost frame of a chain. An offer that is not accepted is
rejected before anything is done. -/
def register (c : Chain) (b : Builtin) : ExceptT RegistrationError (StateM Workspace) Unit := do
  ExceptT.mk (pure b.check)
  let id ← modifyGetThe Workspace fresh
  modifyThe Workspace fun w => w.define c b.name (.closure (.native id b.name b.type b.body))

/-- Binds the default functions in the innermost frame of a chain. -/
def install (w : Workspace) (c : Chain) : Workspace :=
  Builtin.defaults.foldl (fun w b => ((register c b).run w).2) w

/-- The workspace with a primitive function bound under a new identity. -/
def registered (w : Workspace) (c : Chain) (b : Builtin) : Workspace :=
  w.fresh.2.define c b.name (.closure (.native w.fresh.1 b.name b.type b.body))

/-- An offer is accepted exactly if its check is passed; a rejected one changes nothing. -/
theorem run_register (w : Workspace) (c : Chain) (b : Builtin) :
    (register c b).run w = match b.check with
      | .ok _ => (.ok (), w.registered c b)
      | .error e => (.error e, w) := by
  unfold register
  cases b.check <;> rfl

/-- What every registration keeps, installing the default functions keeps. -/
theorem install_of_register {P : Workspace → Prop} {w : Workspace} {c : Chain} (h : P w)
    (hstep : ∀ w b, P w → b.check = .ok () → P (w.registered c b)) : P (w.install c) := by
  unfold install
  induction Builtin.defaults generalizing w with
  | nil => exact h
  | cons b bs ih =>
    rw [List.foldl_cons]
    refine ih ?_
    rw [run_register]
    cases hb : b.check with
    | error e => exact h
    | ok _ => exact hstep w b h hb

end Workspace

end ContractML

import ContractML.Proofs.Invariant
import ContractML.Proofs.Statements

/-!
# Sessions that are reached

A session is reached from a new one by runs and registrations. Between its statements it has a
global frame, no scope and no call is open.

## Main definitions

* `Eval.Closes` — an evaluation that closes the calls that it opens.
* `Session.Ready` — a session between statements.
* `Session.Reachable` — the sessions that are reached by runs and registrations.

## Main results

* `Session.Ready.next`, `Session.Ready.runReading`, `Session.Reachable.ready` — a session that is
  reached has a global frame, and no scope is open in it.
* `Session.Reachable.depth_eq_zero` — no call is open in it.
-/

namespace ContractML

variable [Host]

namespace Eval

/-- The evaluation closes the calls that it opens, whether it gives a value or fails. -/
def Closes {α : Type} (x : Eval α) : Prop := Spec x (fun _ => True) fun _ => True

theorem closes_eval (store : Store) (e : Expr) (env : Env) : Closes (e.eval store env) :=
  (Invariant.trivial store).spec_eval (fun _ _ => trivial) trivial

theorem closes_resolve (store : Store) (k : ContractExpr) (env : Env) :
    Closes (k.resolve store env) :=
  ((Invariant.trivial store).spec_resolve (fun _ _ => trivial) trivial).mono
    (fun _ _ => trivial) fun _ _ => trivial

end Eval

namespace Session

/-- Between statements there is a global frame, and no scope is open. -/
structure Ready (s : Session) : Prop where
  frames : 0 < s.workspace.store.frames.size
  scopes : s.scopes.scopes = []

/-- A session, with or without contracts, after any number of runs, and of registrations of
primitive functions that are accepted or rejected. -/
inductive Reachable : Session → Prop
  | start (contracts : Bool) : Reachable (.start contracts)
  | run {s : Session} (source : String) : Reachable s → Reachable (s.run source)
  | runProgram {s : Session} (p : Program) : Reachable s → Reachable (s.runProgram p)
  | registerNative {s : Session} (b : Builtin) : Reachable s → Reachable (s.registerNative b).2

variable {s : Session}

/-! ### Between statements -/

namespace Ready

omit [Host] in
theorem binding (hs : s.Ready) (x : String) (v : Value) : (s.binding x v).Ready := by
  refine ⟨?_, hs.scopes⟩
  have hframes := hs.frames
  simpa [Session.binding, Workspace.define, Store.define] using hframes

omit [Host] in
theorem declaring (hs : s.Ready) (x : String) (c : ContractExpr) : (s.declaring x c).Ready := by
  refine ⟨hs.frames, ?_⟩
  change (s.scopes.declare x c).scopes = []
  rw [ScopeStack.declare, hs.scopes]

/-- One statement keeps a session ready for the next one. -/
theorem next (hs : s.Ready) (stmt : Stmt) : (s.execute stmt).2.Ready := by
  -- Whatever the evaluator did, it has changed nothing but the counters.
  have hcounting : ∀ c, (s.counting c).Ready := fun c => ⟨hs.frames, hs.scopes⟩
  cases stmt with
  | expr e span =>
    rw [execute_expr]
    split <;> exact hcounting _
  | define x e span =>
    rw [execute_define]
    split
    · exact (hcounting _).binding x.text _
    · exact hcounting _
  | contract x c span =>
    cases hon : s.contracts with
    | false =>
      rw [execute_contract_off hon]
      exact hs
    | true =>
      rw [execute_contract hon]
      split
      · exact (hcounting _).declaring x.text c
      · exact hcounting _

theorem executeAll (hs : s.Ready) (stmts : List Stmt) : (s.executeAll stmts).2.Ready := by
  induction stmts generalizing s with
  | nil => exact hs
  | cons stmt stmts ih => exact ih (hs.next stmt)

/-- A run keeps a session ready for the next one. -/
theorem runReading (hs : s.Ready) (r : Reading) : (s.runReading r).Ready := by
  rw [runReading_eq]
  exact ⟨(hs.executeAll r.program.body).frames, (hs.executeAll r.program.body).scopes⟩

end Ready

omit [Host] in
theorem size_registered (w : Workspace) (c : Chain) (b : Builtin) :
    (w.registered c b).store.frames.size = w.store.frames.size := by
  simp [Workspace.registered, Workspace.fresh, Workspace.define, Store.define]

omit [Host] in
theorem ready_start (contracts : Bool) : (Session.start contracts).Ready := by
  have hinit : 0 < Workspace.init.store.frames.size := Nat.one_pos
  refine ⟨?_, rfl⟩
  exact Workspace.install_of_register (P := fun w => 0 < w.store.frames.size) hinit
    fun _ _ h _ => by rwa [size_registered]

omit [Host] in
theorem Ready.registerNative (hs : s.Ready) (b : Builtin) : (s.registerNative b).2.Ready := by
  refine registerNative_of_registered hs fun _ => ⟨?_, hs.scopes⟩
  have hframes := hs.frames
  rwa [← size_registered s.workspace Store.global b] at hframes

/-- A session that is reached has a global frame and no open scope. -/
theorem Reachable.ready (h : s.Reachable) : s.Ready := by
  induction h with
  | start contracts => exact ready_start contracts
  | run source _ ih => exact ih.runReading _
  | runProgram p _ ih => exact ih.runReading _
  | registerNative b _ ih => exact ih.registerNative b

/-! ### Open calls -/

/-- A statement leaves as many calls open as it finds. -/
theorem depth_execute (s : Session) (stmt : Stmt) :
    (s.execute stmt).2.workspace.counters.depth = s.workspace.counters.depth := by
  -- The evaluator closes every call that it opens, if it fails as well.
  have heval : ∀ e : Expr, Eval.Closes (e.eval s.workspace.store globalEnv) :=
    fun e => Eval.closes_eval _ e _
  cases stmt with
  | expr e span =>
    rw [execute_expr]
    cases hv : (s.annotate e).eval s.workspace.store globalEnv s.workspace.counters with
    | ok v c => exact ((heval _).of_ok hv).2
    | error f c => exact ((heval _).of_error hv).2
  | define x e span =>
    rw [execute_define]
    cases hv : (s.annotateBinding x.text e).eval s.workspace.store globalEnv
        s.workspace.counters with
    | ok v c => exact ((heval _).of_ok hv).2
    | error f c => exact ((heval _).of_error hv).2
  | contract x c span =>
    cases hon : s.contracts with
    | false => rw [execute_contract_off hon]
    | true =>
      have hresolve := Eval.closes_resolve s.workspace.store c globalEnv
      rw [execute_contract hon]
      cases hv : c.resolve s.workspace.store globalEnv s.workspace.counters with
      | ok k d => exact (hresolve.of_ok hv).2
      | error f d => exact (hresolve.of_error hv).2

theorem depth_executeAll (s : Session) (stmts : List Stmt) :
    (s.executeAll stmts).2.workspace.counters.depth = s.workspace.counters.depth := by
  induction stmts generalizing s with
  | nil => rfl
  | cons stmt stmts ih => exact (ih (s.execute stmt).2).trans (s.depth_execute stmt)

theorem depth_runReading (s : Session) (r : Reading) :
    (s.runReading r).workspace.counters.depth = s.workspace.counters.depth := by
  rw [runReading_eq]
  exact s.depth_executeAll r.program.body

/-- No call is open in a session that is reached. -/
theorem Reachable.depth_eq_zero (h : s.Reachable) : s.workspace.counters.depth = 0 := by
  induction h with
  | start contracts =>
    exact Workspace.install_of_register (P := fun w => w.counters.depth = 0) rfl
      fun _ _ hw _ => hw
  | run source _ ih => exact (depth_runReading _ _).trans ih
  | runProgram p _ ih => exact (depth_runReading _ _).trans ih
  | registerNative b _ ih =>
    exact registerNative_of_registered (P := fun s => s.workspace.counters.depth = 0) ih
      fun _ => ih

end Session

end ContractML

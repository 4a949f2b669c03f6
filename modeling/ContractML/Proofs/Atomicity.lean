import ContractML.Proofs.Conservation

/-!
# Statements are atomic

A statement that fails leaves the session as it was, however deep in its evaluation it fails: no
frame that was there before is written, and every scope and every call that was opened is closed
again. A statement that succeeds changes what it names and nothing else. What stays behind are the
frames that the evaluation has opened, which nothing in the session leads to unless it was given a
value, and the identities that were given out to closures.

The evaluator is the one on frames, which writes to the store of the session as it goes along, and
the functions of the embedding program are any functions. That nothing old is written is a property
of the evaluator; that a statement changes no more than the evaluator does is shown for any
evaluator that conserves the session. That sessions on frames do what other sessions do is shown by
`Session.history_readsAs`.

A session that is reached by runs and registrations has a global frame, and no scope is open between
its statements. So a binding is made in the global frame, and a declaration among the global ones.

## Main definitions

* `Session.Untouched`, `Session.Binds`, `Session.Declares` — what a statement may change.
* `Session.Evaluator.Conserves` — an evaluator that leaves a session untouched.

## Main results

* `Session.Ready.executeWith` — one statement, with an evaluator that conserves the session.
* `Session.conserves_framedEvaluator` — the evaluator on frames does.
* `Session.ready_history` — every session that is reached.
* `Session.history_atomic` — **statements are atomic and touch only what they name**.
-/

namespace ContractML

namespace Session

/-! ### What a statement may change -/

/-- The frames that were there before, all contract declarations, the open scopes, the open calls
and the log are as before. -/
structure Untouched (s s' : Session) : Prop where
  frame : ∀ i < s.workspace.store.frames.size,
    s'.workspace.store.frame i = s.workspace.store.frame i
  size : s.workspace.store.frames.size ≤ s'.workspace.store.frames.size
  scopes : s'.scopes = s.scopes
  depth : s'.workspace.counters.depth = s.workspace.counters.depth
  contracts : s'.contracts = s.contracts
  log : s'.log = s.log

/-- A global name is bound to a value, and everything else is as before. -/
structure Binds (x : String) (v : Value) (s s' : Session) : Prop where
  global : ∀ name, s'.get? name = if x = name then some v else s.get? name
  frame : ∀ i < s.workspace.store.frames.size, i ≠ 0 →
    s'.workspace.store.frame i = s.workspace.store.frame i
  size : s.workspace.store.frames.size ≤ s'.workspace.store.frames.size
  scopes : s'.scopes = s.scopes
  depth : s'.workspace.counters.depth = s.workspace.counters.depth
  contracts : s'.contracts = s.contracts
  log : s'.log = s.log

/-- A contract is declared globally for a name, and everything else is as before. -/
structure Declares (x : String) (c : ContractExpr) (s s' : Session) : Prop where
  globals : ∀ name, s'.scopes.globals.get? name =
    if x = name then some c else s.scopes.globals.get? name
  scopes : s'.scopes.scopes = s.scopes.scopes
  frame : ∀ i < s.workspace.store.frames.size,
    s'.workspace.store.frame i = s.workspace.store.frame i
  size : s.workspace.store.frames.size ≤ s'.workspace.store.frames.size
  depth : s'.workspace.counters.depth = s.workspace.counters.depth
  contracts : s'.contracts = s.contracts
  log : s'.log = s.log

/-- What a statement that gave a result has changed. -/
def Changes (s : Session) : Stmt → StatementResult → Session → Prop
  | .expr _ _, r, s' => (∃ v, r = .evaluated v) ∧ s.Untouched s'
  | .define x _ _, r, s' => ∃ v, r = .bound x.text v ∧ s.Binds x.text v s'
  | .contract x c _, r, s' =>
    r = .contract x.text c.render ∧ if s.contracts then s.Declares x.text c s' else s' = s

/-- An evaluator that leaves a session untouched, whether it gives a value or fails. -/
structure Evaluator.Conserves (ev : Evaluator) : Prop where
  expr : ∀ (s : Session) e, s.Untouched (ev.expr s e).2
  contract : ∀ (s : Session) c, s.Untouched (ev.contract s c).2

variable {s s' : Session}

/-- Binding a global name in a session that has been left untouched. -/
theorem Untouched.binding (h : s.Untouched s') (hs : s.Ready) (x : String) (v : Value) :
    s.Binds x v (s'.binding x v) where
  global name := by
    -- Opening frames does not take the global one away, so the binding is made in it.
    have hframes : 0 < s'.workspace.store.frames.size := Nat.lt_of_lt_of_le hs.frames h.size
    have hglobal := h.frame 0 hs.frames
    simp [get?, Session.binding, Workspace.define, Store.get?, Store.getIn?, Store.global,
      Store.frame_define, hframes, hglobal]
  frame i hi hne := by
    have hother : ¬(Store.global.frame = i ∧ i < s'.workspace.store.frames.size) :=
      fun hi => hne hi.1.symm
    simp only [Session.binding, Workspace.define, Store.frame_define, if_neg hother]
    exact h.frame i hi
  size := by
    rw [Session.binding, Workspace.size_define]
    exact h.size
  scopes := h.scopes
  depth := h.depth
  contracts := h.contracts
  log := h.log

/-- Declaring a contract in a session that has been left untouched. -/
theorem Untouched.declaring (h : s.Untouched s') (hs : s.Ready) (x : String) (c : ContractExpr) :
    s.Declares x c (s'.declaring x c) := by
  have hdeclare : s'.scopes.declare x c = ⟨s.scopes.globals.insert x c, []⟩ := by
    rw [h.scopes, ScopeStack.declare, hs.scopes]
  refine ⟨?_, ?_, h.frame, h.size, h.depth, h.contracts, h.log⟩
  · intro name
    simp [Session.declaring, hdeclare]
  · simp [Session.declaring, hdeclare, hs.scopes]

/-! ### One statement -/

/-- A statement that fails changes nothing; one that succeeds changes what it names. -/
theorem Ready.executeWith {ev : Evaluator} (hev : ev.Conserves) (hs : s.Ready) (stmt : Stmt) :
    match s.executeWith ev stmt with
    | (.error _, s') => s.Untouched s'
    | (.ok r, s') => s.Changes stmt r s' := by
  cases stmt with
  | expr e span =>
    have huntouched := hev.expr s (s.annotate e)
    rw [executeWith_expr]
    generalize ev.expr s (s.annotate e) = outcome at huntouched ⊢
    obtain ⟨result, s'⟩ := outcome
    cases result with
    | ok v => exact ⟨⟨v, rfl⟩, huntouched⟩
    | error f => exact huntouched
  | define x e span =>
    have huntouched := hev.expr s (s.annotateBinding x.text e)
    rw [executeWith_define]
    generalize ev.expr s (s.annotateBinding x.text e) = outcome at huntouched ⊢
    obtain ⟨result, s'⟩ := outcome
    cases result with
    | ok v => exact ⟨v, rfl, huntouched.binding hs x.text v⟩
    | error f => exact huntouched
  | contract x c span =>
    cases hon : s.contracts with
    | false =>
      -- Without contracts a declaration does not reach the evaluator.
      rw [executeWith_contract_off ev hon]
      exact ⟨rfl, by simp [hon]⟩
    | true =>
      have huntouched := hev.contract s c
      rw [executeWith_contract ev hon x c span (huntouched.contracts.trans hon)]
      generalize ev.contract s c = outcome at huntouched ⊢
      obtain ⟨result, s'⟩ := outcome
      cases result with
      | ok k =>
        refine ⟨rfl, ?_⟩
        rw [if_pos hon]
        exact huntouched.declaring hs x.text c
      | error f => exact huntouched

theorem Untouched.ready (h : s.Untouched s') (hs : s.Ready) : s'.Ready :=
  ⟨Nat.lt_of_lt_of_le hs.frames h.size, by rw [h.scopes]; exact hs.scopes⟩

/-- A statement leaves a session ready for the next one: it changes neither the number of open
scopes nor does it take frames away. -/
theorem Ready.nextWith {ev : Evaluator} (hev : ev.Conserves) (hs : s.Ready) (stmt : Stmt) :
    (s.executeWith ev stmt).2.Ready := by
  have hchanges := hs.executeWith hev stmt
  generalize s.executeWith ev stmt = outcome at hchanges ⊢
  obtain ⟨result, s'⟩ := outcome
  cases result with
  | error f => exact Untouched.ready hchanges hs
  | ok r =>
    cases stmt with
    | expr e span => exact hchanges.2.ready hs
    | define x e span =>
      obtain ⟨v, -, hbinds⟩ := hchanges
      exact ⟨Nat.lt_of_lt_of_le hs.frames hbinds.size, by rw [hbinds.scopes]; exact hs.scopes⟩
    | contract x c span =>
      obtain ⟨-, hdeclares⟩ := hchanges
      split at hdeclares
      · exact ⟨Nat.lt_of_lt_of_le hs.frames hdeclares.size,
          by rw [hdeclares.scopes]; exact hs.scopes⟩
      · rwa [hdeclares]

/-! ### The evaluator on frames -/

/-- What an act does to frames and calls, it does to those of the session. -/
theorem untouched_act {α : Type} {x : Act α} (hx : x.Grows) (s : Session) :
    s.Untouched (s.act x).2 := by
  have hgrows := hx s.workspace
  unfold Session.act
  split
  next hw => rw [hw] at hgrows; exact ⟨hgrows.frame, hgrows.size, rfl, hgrows.depth, rfl, rfl⟩
  next hw => rw [hw] at hgrows; exact ⟨hgrows.frame, hgrows.size, rfl, hgrows.depth, rfl, rfl⟩

section OnFrames

variable [Host]

theorem conserves_framedEvaluator : framedEvaluator.Conserves where
  expr s e := s.untouched_act (grows_evalFramed FramedMachine.grows_top e Store.global)
  contract s _ := s.untouched_act
    (grows_resolveFramed fun p _ => grows_evalFramed FramedMachine.grows_top p Store.global)

/-! ### Sessions that are reached -/

/-- Runs of statements and recorded results keep a session ready. -/
theorem Ready.runStatements (hs : s.Ready) (stmts : List Stmt) (errors : List SyntaxError) :
    (runStatements executeFramed s stmts errors).Ready := by
  have hrecord : ∀ {s : Session}, s.Ready → ∀ r, (s.record r).Ready :=
    fun hs _ => ⟨hs.frames, hs.scopes⟩
  have hrecordErrors : ∀ {s : Session}, s.Ready → ∀ es, (s.recordErrors es).Ready := by
    intro s hs es
    unfold recordErrors
    induction es generalizing s with
    | nil => exact hs
    | cons e es ih => exact ih (hrecord hs _)
  induction stmts generalizing s errors with
  | nil => exact hrecordErrors hs errors
  | cons stmt stmts ih =>
    exact ih (hrecord ((hrecordErrors hs _).nextWith conserves_framedEvaluator stmt) _) _

/-- A session that is reached has a global frame and no open scope. -/
theorem ready_history (contracts : Bool) (events : List Event) :
    (history executeFramed contracts events).Ready := by
  have hafter : ∀ {s : Session}, s.Ready → ∀ event, (s.after executeFramed event).Ready := by
    intro s hs event
    have hclear : s.clear.Ready := ⟨hs.frames, hs.scopes⟩
    cases event with
    | run source => exact hclear.runStatements _ _
    | runProgram p => exact hclear.runStatements _ _
    | registerNative b => exact hs.registerNative b
  -- The history is a fold, and each of its events keeps the session ready.
  unfold history
  generalize hstart : Session.start contracts = s
  have hs : s.Ready := hstart ▸ ready_start contracts
  clear hstart
  induction events generalizing s with
  | nil => exact hs
  | cons event events ih => exact ih _ (hafter hs event)

/-- **Statements are atomic and touch only what they name.** Let a session be reached by any history
of runs and registrations, with any functions of the embedding program. A statement that fails
leaves every frame that was there before, the contract declarations, the open scopes and the open
calls as they were. So does an expression. A global binding gives the name the value that is
reported, and changes no other name and no other frame. A contract declaration gives the name its
contract if the session checks contracts, and else changes nothing. A registration that is rejected
changes nothing. -/
theorem history_atomic (contracts : Bool) (events : List Event) :
    let s := history executeFramed contracts events
    (∀ stmt f s', s.executeFramed stmt = (.error f, s') → s.Untouched s') ∧
      (∀ e span r s', s.executeFramed (.expr e span) = (.ok r, s') →
        (∃ v, r = .evaluated v) ∧ s.Untouched s') ∧
      (∀ x e span r s', s.executeFramed (.define x e span) = (.ok r, s') →
        ∃ v, r = .bound x.text v ∧ s.Binds x.text v s') ∧
      (∀ x c span r s', s.executeFramed (.contract x c span) = (.ok r, s') →
        r = .contract x.text c.render ∧
          if s.contracts then s.Declares x.text c s' else s' = s) ∧
      ∀ b e s', s.registerNative b = (.error e, s') → s' = s := by
  intro s
  have hs : s.Ready := ready_history contracts events
  have hok : ∀ stmt r s', s.executeFramed stmt = (.ok r, s') → s.Changes stmt r s' := by
    intro stmt r s' hstmt
    have hchanges := hs.executeWith conserves_framedEvaluator stmt
    rw [← executeFramed, hstmt] at hchanges
    exact hchanges
  refine ⟨?_, fun e span => hok _, fun x e span => hok _, fun x c span => hok _, ?_⟩
  · intro stmt f s' hstmt
    have huntouched := hs.executeWith conserves_framedEvaluator stmt
    rw [← executeFramed, hstmt] at huntouched
    exact huntouched
  · intro b e s' hb
    -- A registration is checked before anything is written.
    rw [registerNative_eq] at hb
    cases hcheck : b.check with
    | ok _ =>
      rw [hcheck] at hb
      cases hb
    | error _ =>
      rw [hcheck] at hb
      cases hb
      rfl

end OnFrames

/-- The frame of a local variable is opened beside the global one, and is left behind when the
statement fails. -/
example :
    let x : Ident := ⟨"x", .nowhere⟩
    let e := Expr.letIn x (.lit (.int 1) .nowhere)
      (.binary .add (.var x) (.lit (.bool true) .nowhere) .nowhere) .nowhere
    let outcome := (Session.start true).executeFramed (.expr e .nowhere)
    outcome.1.toBool = false ∧ outcome.2.workspace.store.frames.size = 2 := by
  decide +kernel

end Session

end ContractML

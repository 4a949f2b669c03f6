import Mathlib.Data.List.Forall2
import ContractML.Proofs.Coupling
import ContractML.Proofs.Reports

/-!
# Runs of relabelled sessions

A session holds positions and identities in the values that it has bound, and positions in the
contracts that were declared. With other labels it does the same: on statements at other places it
gives relabelled results and is left relabelled in the same way. One statement is one evaluation,
for which this is known; a run goes from statement to statement.

The monitor copies declared contracts into the tree, so trees and declarations have to be moved
together.

## Main definitions

* `Failure.move`, `StatementResult.relabel`, `Outcome.relabel` — results with other labels.
* `ScopeStack.Moves`, `Session.Relabels` — the second session is the first one relabelled.
* `Session.relabel` — a session with its labels changed.

## Main results

* `StatementResult.failures_relabel`, `RunLog.outcome_relabel` — failures and outcomes do not
  depend on labels otherwise.
* `Expr.monitor_move` — the monitor commutes with moving trees and declarations.
* `Session.Relabels.execute` — one statement.
* `Session.Relabels.runEntries` — **a relabelled session gives relabelled results**.
* `Session.relabels_relabel` — sessions can be relabelled.
-/

namespace ContractML

variable {ρ : Relabelling} {f : Nat → Nat}

/-! ### Results -/

/-- The failure noticed at another place. -/
def Failure.move (f : Nat → Nat) : Failure → Failure
  | malformed e => malformed (e.move f)
  | fault e => fault (e.move f)

@[simp] theorem Failure.kind_move (f : Nat → Nat) (e : Failure) : (e.move f).kind = e.kind := by
  cases e <;> rfl

@[simp] theorem Failure.message_move (f : Nat → Nat) (e : Failure) :
    (e.move f).message = e.message := by
  cases e <;> rfl

/-- The result with its labels changed. -/
def StatementResult.relabel (ρ : Relabelling) : StatementResult → StatementResult
  | bound name value => bound name (value.relabel ρ)
  | evaluated value => evaluated (value.relabel ρ)
  | contract name text => contract name text
  | failed e => failed (e.move ρ.place)

/-- The outcome with its labels changed. -/
def Outcome.relabel (ρ : Relabelling) : Outcome → Outcome
  | finished value name => finished (value.relabel ρ) name
  | errored => errored
  | empty => empty

theorem StatementResult.relabel_ofExcept (r : Except Fault StatementResult) :
    ofExcept (ρ.outcome (relabel ρ) r) = (ofExcept r).relabel ρ := by
  cases r <;> rfl

theorem StatementResult.value?_relabel (ρ : Relabelling) (r : StatementResult) :
    (r.relabel ρ).value? = r.value?.map fun p => (p.1.relabel ρ, p.2) := by
  cases r <;> rfl

theorem StatementResult.failures_relabel (ρ : Relabelling) (results : List StatementResult) :
    failures (results.map (relabel ρ)) = (failures results).map (Failure.move ρ.place) := by
  have hfailure : ∀ r : StatementResult,
      (r.relabel ρ).failure? = r.failure?.map (Failure.move ρ.place) := by
    intro r
    cases r <;> rfl
  rw [failures, failures, List.filterMap_map, List.map_filterMap]
  exact congrArg (List.filterMap · results) (funext hfailure)

theorem RunLog.outcome_relabel (ρ : Relabelling) (results : List StatementResult) :
    (ofResults (results.map (StatementResult.relabel ρ))).outcome =
      (ofResults results).outcome.relabel ρ := by
  have hvalues : (results.map (StatementResult.relabel ρ)).filterMap StatementResult.value? =
      (results.filterMap StatementResult.value?).map fun p => (p.1.relabel ρ, p.2) := by
    rw [List.filterMap_map, List.map_filterMap]
    exact congrArg (List.filterMap · results) (funext (StatementResult.value?_relabel ρ))
  rw [outcome_ofResults, outcome_ofResults, StatementResult.failures_relabel, hvalues,
    List.getLast?_map]
  simp only [List.map_eq_nil_iff]
  split
  · cases (results.filterMap StatementResult.value?).getLast? <;> rfl
  · rfl

/-! ### Declarations and the monitor -/

/-- The second scope declares the contracts of the first one at other places. -/
structure ContractScope.Moves (f : Nat → Nat) (a b : ContractScope) : Prop where
  name : b.name = a.name
  contracts : a.contracts.Maps (ContractExpr.move f) b.contracts

/-- The second scope stack holds the declarations of the first one at other places. -/
structure ScopeStack.Moves (f : Nat → Nat) (σ τ : ScopeStack) : Prop where
  globals : σ.globals.Maps (ContractExpr.move f) τ.globals
  scopes : List.Forall₂ (ContractScope.Moves f) σ.scopes τ.scopes

namespace ScopeStack.Moves

variable {σ τ : ScopeStack}

theorem current? (h : σ.Moves f τ) : τ.current? = σ.current? := by
  obtain ⟨globals, scopes⟩ := σ
  obtain ⟨globals', scopes'⟩ := τ
  cases h.scopes with
  | nil => rfl
  | cons hab _ => exact congrArg some hab.name

theorem lookup? (h : σ.Moves f τ) (name : String) :
    τ.lookup? name = (σ.lookup? name).map (ContractExpr.move f) := by
  have hscopes : ∀ {as bs : List ContractScope}, List.Forall₂ (ContractScope.Moves f) as bs →
      bs.findSome? (fun a => a.contracts.get? name) =
        (as.findSome? fun a => a.contracts.get? name).map (ContractExpr.move f) := by
    intro as bs hab
    induction hab with
    | nil => rfl
    | @cons a b as bs hab _ ih =>
      rw [List.findSome?_cons, List.findSome?_cons, hab.contracts name, ih]
      cases a.contracts.get? name <;> rfl
  rw [ScopeStack.lookup?, ScopeStack.lookup?, hscopes h.scopes, h.globals name, Option.map_or]

theorem push (h : σ.Moves f τ) (name : String) : (σ.push name).Moves f (τ.push name) where
  globals := h.globals
  scopes := .cons ⟨rfl, fun _ => rfl⟩ h.scopes

theorem declare (h : σ.Moves f τ) (name : String) (c : ContractExpr) :
    (σ.declare name c).Moves f (τ.declare name (c.move f)) := by
  obtain ⟨globals, scopes⟩ := σ
  obtain ⟨globals', scopes'⟩ := τ
  cases h.scopes with
  | nil => exact ⟨h.globals.insert name c, .nil⟩
  | cons hab hrest => exact ⟨h.globals, .cons ⟨hab.name, hab.contracts.insert name c⟩ hrest⟩

end ScopeStack.Moves

/-- The monitor commutes with moving trees and declarations. -/
theorem Expr.monitor_move {σ τ : ScopeStack} (h : σ.Moves f τ) (e : Expr) :
    (e.move f).monitor τ = (e.monitor σ).move f := by
  -- Lists of arguments and of items are monitored one by one.
  have hall : ∀ es : List Expr, (∀ e ∈ es, (e.move f).monitor τ = (e.monitor σ).move f) →
      Expr.monitorAll τ (Expr.moveAll f es) = Expr.moveAll f (Expr.monitorAll σ es) := by
    intro es hes
    simp only [Expr.monitorAll_eq_map, Expr.moveAll_eq_map, List.map_map]
    exact List.map_congr_left hes
  induction e with
  | lit v s => rfl
  | var x =>
    rw [Expr.move, Expr.monitor, Expr.monitor, Ident.text_move, h.lookup?, h.current?]
    cases σ.lookup? x.text <;> rfl
  | unary op e s ih => simp only [Expr.move, Expr.monitor, ih]
  | binary op l r s ihl ihr => simp only [Expr.move, Expr.monitor, ihl, ihr]
  | logical op l r s ihl ihr => simp only [Expr.move, Expr.monitor, ihl, ihr]
  | cond c t e s ihc iht ihe => simp only [Expr.move, Expr.monitor, ihc, iht, ihe]
  | lambda ps b s ih => simp only [Expr.move, Expr.monitor, ih]
  | call g args s ihg ihargs => simp only [Expr.move, Expr.monitor, ihg, hall args ihargs]
  | letIn x v b s ihv _ => simp only [Expr.move, Expr.monitor, ihv]
  | seq es s ih => simp only [Expr.move, Expr.monitor, hall es ih]
  | monitored e c pos neg _ _ => rfl

theorem Expr.monitorBinding_move {σ τ : ScopeStack} (h : σ.Moves f τ) (name : String) (e : Expr) :
    (((e.move f).monitorBinding name).run τ).1 = ((e.monitorBinding name).run σ).1.move f := by
  rw [Expr.run_monitorBinding, Expr.run_monitorBinding, h.lookup?, h.current?,
    Expr.monitor_move (h.push name)]
  cases σ.lookup? name <;> rfl

/-! ### Sessions -/

namespace Session

/-- The second session is the first one with its labels changed. Both give out the identities to
come in the same order. The results of the last run do not matter. -/
structure Relabels (ρ : Relabelling) (s u : Session) : Prop where
  contracts : u.contracts = s.contracts
  store : s.workspace.store.Relabels ρ u.workspace.store
  scopes : s.scopes.Moves ρ.place u.scopes
  depth : u.workspace.counters.depth = s.workspace.counters.depth
  identity : ∀ k, ρ.identity (s.workspace.counters.identity + k) =
    u.workspace.counters.identity + k

namespace Relabels

variable {s u : Session}

theorem annotate (h : s.Relabels ρ u) (e : Expr) :
    u.annotate (e.move ρ.place) = (s.annotate e).move ρ.place := by
  unfold Session.annotate
  rw [h.contracts]
  split
  · exact Expr.monitor_move h.scopes e
  · rfl

theorem annotateBinding (h : s.Relabels ρ u) (name : String) (e : Expr) :
    u.annotateBinding name (e.move ρ.place) = (s.annotateBinding name e).move ρ.place := by
  unfold Session.annotateBinding
  rw [h.contracts]
  split
  · exact Expr.monitorBinding_move h.scopes name e
  · rfl

/-- The runs of a session and of the relabelled session, side by side. -/
def coupling (ρ : Relabelling) (depth : Nat) : Coupling where
  labels := ρ
  depth := depth
  depth' := depth
  excused _ := False

theorem room (ρ : Relabelling) (depth limit : Nat) :
    (coupling ρ depth).Room limit limit limit limit :=
  ⟨Nat.le_refl _, Nat.le_refl _, .inr ⟨Nat.le_refl _, Nat.le_refl _⟩⟩

theorem runs (h : s.Relabels ρ u) (depth : Nat) :
    (coupling ρ depth).Runs (.over s.workspace.store) (.over u.workspace.store) := by
  rw [← Machine.within_maxCallDepth, ← Machine.within_maxCallDepth]
  exact Coupling.runs_within h.store (room ρ depth maxCallDepth)

theorem aligned (h : s.Relabels ρ u) : (coupling ρ s.workspace.counters.depth).Aligned
    s.workspace.counters u.workspace.counters :=
  ⟨rfl, h.depth, h.identity⟩

/-- A session with the counters that an evaluation has left. -/
theorem counting (h : s.Relabels ρ u) {depth : Nat} {c c' : Counters}
    (hc : (coupling ρ depth).Aligned c c') : (s.counting c).Relabels ρ (u.counting c') where
  contracts := h.contracts
  store := h.store
  scopes := h.scopes
  depth := hc.depth'.trans hc.depth.symm
  identity := hc.identity

theorem binding (h : s.Relabels ρ u) (name : String) (v : Value) :
    (s.binding name v).Relabels ρ (u.binding name (v.relabel ρ)) :=
  ⟨h.contracts, h.store.define Store.global name v, h.scopes, h.depth, h.identity⟩

theorem declaring (h : s.Relabels ρ u) (name : String) (c : ContractExpr) :
    (s.declaring name c).Relabels ρ (u.declaring name (c.move ρ.place)) :=
  ⟨h.contracts, h.store, h.scopes.declare name c, h.depth, h.identity⟩

theorem logging (h : s.Relabels ρ u) (log : RunLog) : (s.logging log).Relabels ρ u :=
  ⟨h.contracts, h.store, h.scopes, h.depth, h.identity⟩

theorem relabel_globalEnv (h : s.Relabels ρ u) : globalEnv.relabel ρ = globalEnv := by
  rw [globalEnv, Env.relabel, h.store.frames_eq]

/-- An expression at another place evaluates to a relabelled value. -/
theorem eval (h : s.Relabels ρ u) (e : Expr) :
    (coupling ρ s.workspace.counters.depth).Answers (Value.relabel ρ)
      (e.eval s.workspace.store globalEnv s.workspace.counters)
      ((e.move ρ.place).eval u.workspace.store globalEnv u.workspace.counters) := by
  have heval := Coupling.matches_evalWith (h.runs _) e globalEnv _ _ h.aligned
  rwa [coupling, h.relabel_globalEnv] at heval

theorem resolve (h : s.Relabels ρ u) (c : ContractExpr) :
    (coupling ρ s.workspace.counters.depth).Answers (Contract.relabel ρ)
      (c.resolve s.workspace.store globalEnv s.workspace.counters)
      ((c.move ρ.place).resolve u.workspace.store globalEnv u.workspace.counters) := by
  have hresolve := Coupling.matches_resolveWith (k := c)
    (fun p _ => Coupling.matches_evalWith (h.runs _) p globalEnv) _ _ h.aligned
  rwa [coupling, h.relabel_globalEnv] at hresolve

/-- A statement at another place gives a relabelled result, and leaves a relabelled session. -/
theorem execute (h : s.Relabels ρ u) (stmt : Stmt) :
    (u.execute (stmt.move ρ.place)).1 =
        ρ.outcome (StatementResult.relabel ρ) (s.execute stmt).1 ∧
      (s.execute stmt).2.Relabels ρ (u.execute (stmt.move ρ.place)).2 := by
  cases stmt with
  | expr e span =>
    have heval := h.eval (s.annotate e)
    -- The monitor commutes with moving, so the trees to be evaluated are the same but for their
    -- places.
    rw [Stmt.move, execute_expr, execute_expr, h.annotate]
    generalize (s.annotate e).eval _ globalEnv _ = r at heval ⊢
    generalize ((s.annotate e).move ρ.place).eval _ globalEnv _ = r' at heval ⊢
    cases heval with
    | ok hc => exact ⟨rfl, h.counting hc⟩
    | error hc => exact ⟨rfl, h.counting hc⟩
    | excused hf => exact hf.elim
  | define x e span =>
    have heval := h.eval (s.annotateBinding x.text e)
    rw [Stmt.move, execute_define, execute_define, Ident.text_move, h.annotateBinding]
    generalize (s.annotateBinding x.text e).eval _ globalEnv _ = r at heval ⊢
    generalize ((s.annotateBinding x.text e).move ρ.place).eval _ globalEnv _ = r' at heval ⊢
    cases heval with
    | ok hc => exact ⟨rfl, (h.counting hc).binding x.text _⟩
    | error hc => exact ⟨rfl, h.counting hc⟩
    | excused hf => exact hf.elim
  | contract x c span =>
    cases hon : s.contracts with
    | false =>
      have hon' : u.contracts = false := h.contracts.trans hon
      -- Without contracts nothing is declared in either session.
      rw [Stmt.move, execute_contract_off hon, execute_contract_off hon', ContractExpr.render_move]
      exact ⟨rfl, h⟩
    | true =>
      have hon' : u.contracts = true := h.contracts.trans hon
      -- The declaration moves with the statement, and so does the contract that it is tried with.
      have hresolve := h.resolve c
      rw [Stmt.move, execute_contract hon, execute_contract hon', ContractExpr.render_move]
      generalize c.resolve _ globalEnv _ = r at hresolve ⊢
      generalize (c.move ρ.place).resolve _ globalEnv _ = r' at hresolve ⊢
      cases hresolve with
      | ok hc => exact ⟨rfl, (h.counting hc).declaring x.text c⟩
      | error hc => exact ⟨rfl, h.counting hc⟩
      | excused hf => exact hf.elim

/-- **A relabelled session gives relabelled results.** Statements and syntax errors at other places
have the results that they had, up to labels, and the sessions stay related. -/
theorem runEntries (h : s.Relabels ρ u) (xs : List Entry) :
    (u.runEntries (xs.map (Entry.move ρ.place))).1 =
        (s.runEntries xs).1.map (StatementResult.relabel ρ) ∧
      (s.runEntries xs).2.Relabels ρ (u.runEntries (xs.map (Entry.move ρ.place))).2 := by
  induction xs generalizing s u with
  | nil => exact ⟨rfl, h⟩
  | cons x xs ih =>
    cases x with
    | malformed e =>
      obtain ⟨hresults, hrest⟩ := ih h
      rw [List.map_cons, Entry.move, Session.runEntries, Session.runEntries, List.map_cons,
        hresults]
      exact ⟨rfl, hrest⟩
    | statement stmt =>
      obtain ⟨hresult, hnext⟩ := h.execute stmt
      obtain ⟨hresults, hrest⟩ := ih hnext
      rw [List.map_cons, Entry.move, Session.runEntries, Session.runEntries, List.map_cons,
        hresults, hresult, StatementResult.relabel_ofExcept]
      exact ⟨rfl, hrest⟩

end Relabels

end Session

/-! ### Relabelling a session -/

/-- The table with `g` applied to what its names are bound to. -/
def Table.map {α β : Type} (g : α → β) (t : Table α) : Table β :=
  ⟨t.entries.map fun e => (e.1, g e.2)⟩

theorem Table.maps_map {α β : Type} (g : α → β) (t : Table α) : t.Maps g (t.map g) := by
  intro name
  obtain ⟨entries⟩ := t
  change Table.lookup name (entries.map fun e => (e.1, g e.2)) = (Table.lookup name entries).map g
  induction entries with
  | nil => rfl
  | cons e es ih =>
    rw [List.map_cons, Table.lookup, Table.lookup, ih]
    split <;> rfl

namespace Session

/-- The session with its labels changed, that gives out the identities from `n` on. -/
def relabel (ρ : Relabelling) (n : Nat) (s : Session) : Session where
  contracts := s.contracts
  workspace := ⟨⟨s.workspace.store.frames.map (Table.map (Value.relabel ρ))⟩,
    ⟨n, s.workspace.counters.depth⟩⟩
  scopes := ⟨s.scopes.globals.map (ContractExpr.move ρ.place),
    s.scopes.scopes.map fun a => ⟨a.name, a.contracts.map (ContractExpr.move ρ.place)⟩⟩
  log := ⟨s.log.failures.map (Failure.move ρ.place),
    s.log.results.map (StatementResult.relabel ρ)⟩

theorem relabels_relabel {s : Session} {n : Nat} (hframes : ρ.frames = .frames)
    (h : ∀ k, ρ.identity (s.workspace.counters.identity + k) = n + k) :
    s.Relabels ρ (s.relabel ρ n) where
  contracts := rfl
  store := by
    refine ⟨hframes, Array.size_map, fun i => ?_⟩
    have hframe : (s.relabel ρ n).workspace.store.frame i =
        (s.workspace.store.frame i).map (Value.relabel ρ) := by
      simp only [Session.relabel, Store.frame, Array.getElem?_map]
      cases s.workspace.store.frames[i]? <;> rfl
    rw [hframe]
    exact Table.maps_map _ _
  scopes := by
    refine ⟨Table.maps_map _ _, ?_⟩
    change List.Forall₂ _ s.scopes.scopes (s.scopes.scopes.map _)
    rw [List.forall₂_map_right_iff]
    exact List.forall₂_same.mpr fun a _ => ⟨rfl, Table.maps_map _ _⟩
  depth := rfl
  identity := h

end Session

end ContractML

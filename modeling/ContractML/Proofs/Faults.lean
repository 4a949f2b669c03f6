import ContractML.Proofs.Arguments
import ContractML.Proofs.Parsed

/-!
# What faults report

A fault reports where it was raised, and a type error the type that was expected and the type that
was found. Both can be relied on.

A fault is raised at the place of the node that is evaluated, of one of its operands, of a
predicate, or of the call that it leaves. All of these are nodes of trees that have been read, since
closures carry no other trees, and the monitor leaves every node at its place. A type error is
raised about a value that was rejected. That the reported type is rejected too takes that closures
have function types with as many parameters as they take, and that no sequence is empty.

The two are shown at once. What is carried through an evaluation is that every tree in sight stands
at certain places and has no empty sequence, and that primitive functions have function types.

## Main definitions

* `Fault.Points`, `Fault.Genuine` — a fault at one of the places, and a type error that is one.
* `Expr.Sited`, `Closure.Sited`, `Session.Sited` — trees at the places, in closures and in sessions.
* `Regime.sited` — the regime of evaluations in which every tree stands at the places.
* `Session.Sourced` — sessions in which parsed programs have been run.

## Main results

* `Fault.Arises.genuine` — the type errors of single steps are genuine.
* `Session.Sited.execute` — the faults of one statement.
* `Session.fault_in_program` — **every fault of a run points into the program**.
* `Session.mismatch_genuine` — **every type error of a session is genuine**.
-/

namespace ContractML

open Eval (Spec)

/-! ### Type errors -/

/-- If the fault is a type error, the type that was expected does not accept the one that was
found. -/
def Fault.Genuine (f : Fault) : Prop :=
  ∀ expected found, f.cause = .typeMismatch expected found → expected.accepts found = false

theorem Fault.genuine_mismatch {expected found : Ty} (h : expected.accepts found = false)
    (span : Span) : (Fault.mismatch expected found span).Genuine := by
  rintro _ _ ⟨⟩
  exact h

theorem Ty.accepts_prim {p : PrimTy} {t : Ty} :
    (Ty.prim p).accepts t = true ↔ t = .prim p := by
  cases t with
  | prim q => simp [Ty.accepts, eq_comm (a := p)]
  | _ => simp [Ty.accepts]

theorem Ty.accepts_fn {ps : List Ty} {r t : Ty} :
    (Ty.fn ps r).accepts t = true ↔ t.arity? = some ps.length := by
  cases t with
  | fn qs u => simp [Ty.accepts, Ty.arity?, eq_comm (a := ps.length)]
  | _ => simp [Ty.accepts, Ty.arity?]

theorem Ty.exists_fn_of_arity? {t : Ty} {n : Nat} (h : t.arity? = some n) :
    ∃ ps r, t = .fn ps r := by
  cases t with
  | fn ps r => exact ⟨ps, r, rfl⟩
  | _ => cases h

/-- If a value is a closure, its type is that of a function of as many parameters as it takes. -/
def Value.Typed (v : Value) : Prop := ∀ c, v = .closure c → c.type.arity? = some c.arity

section Typed

variable {p : PrimTy} {v l r : Value}

/-- Only the values of a primitive type have that type. -/
theorem Value.Typed.type_eq_prim_iff (hv : v.Typed) : v.type = .prim p ↔ v.prim? = some p := by
  cases v with
  | closure c =>
    obtain ⟨ps, t, htype⟩ := Ty.exists_fn_of_arity? (hv c rfl)
    simp [Value.type, Value.prim?, htype]
  | _ => simp [Value.type, Value.prim?]

/-- A primitive type rejects all other values. -/
theorem Value.Typed.accepts_prim (hv : v.Typed) (h : v.prim? ≠ some p) :
    (Ty.prim p).accepts v.type = false :=
  Bool.eq_false_iff.mpr fun haccepts => h (hv.type_eq_prim_iff.mp (Ty.accepts_prim.mp haccepts))

/-- The type of a value rejects the values of other kinds. -/
theorem Value.Typed.accepts_type (hl : l.Typed) (hr : r.Typed) (h : l.prim? ≠ r.prim?) :
    l.type.accepts r.type = false := by
  cases l with
  | closure c =>
    -- The right one is not a closure too, so its type is primitive.
    obtain ⟨q, hq⟩ := Option.ne_none_iff_exists'.mp h.symm
    obtain ⟨ps, t, htype⟩ := Ty.exists_fn_of_arity? (hl c rfl)
    rw [hr.type_eq_prim_iff.mpr hq, Value.type, htype]
    rfl
  | _ => exact hr.accepts_prim fun hright => h hright.symm

/-- The type of predicates rejects all but closures of one argument. -/
theorem Value.Typed.accepts_predicateType (hv : v.Typed)
    (h : ∀ c, v = .closure c → c.arity ≠ 1) : predicateType.accepts v.type = false := by
  refine Bool.eq_false_iff.mpr fun haccepts => ?_
  have harity : v.type.arity? = some 1 := Ty.accepts_fn.mp haccepts
  cases v with
  | closure c => exact h c rfl (Option.some.inj ((hv c rfl).symm.trans harity))
  | _ => cases harity

end Typed

/-- **The type errors of single steps are genuine**, if closures have function types. -/
theorem Fault.Arises.genuine {V : Value → Prop} (hV : ∀ v, V v → v.Typed) {span : Span} {f : Fault}
    (h : Fault.Arises V span f) : f.Genuine := by
  cases h with
  | primitive hv hprim => exact Fault.genuine_mismatch ((hV _ hv).accepts_prim hprim) span
  | @operand p l r hl hr hprim =>
    refine Fault.genuine_mismatch ?_ span
    split
    · rename_i haccepts
      -- The left operand has the type, so it is the right one that does not.
      have hleft := (hV l hl).type_eq_prim_iff.mp (Ty.accepts_prim.mp haccepts)
      exact (hV r hr).accepts_prim fun hright => hprim ⟨hleft, hright⟩
    · rename_i haccepts
      exact Bool.eq_false_iff.mpr haccepts
  | operands hl hr hprim =>
    exact Fault.genuine_mismatch ((hV _ hl).accepts_type (hV _ hr) hprim) span
  | argument haccepts => exact Fault.genuine_mismatch haccepts span
  | predicate hv harity =>
    exact Fault.genuine_mismatch ((hV _ hv).accepts_predicateType harity) span
  | arity | notCallable | functionalComparison | divisionByZero => rintro _ _ ⟨⟩

theorem Primitive.Misses.genuine {args : List Value} {f : Fault} (h : Primitive.Misses args f)
    (hargs : ∀ a ∈ args, a.Typed) : f.Genuine := by
  obtain ⟨p, found, rfl, hfound⟩ := h
  rintro _ _ ⟨⟩
  cases found with
  | none => rfl
  | some v =>
    obtain ⟨hmem, hprim⟩ := hfound v rfl
    exact (hargs v hmem).accepts_prim hprim

/-- The type of the operands of an operator on numbers or strings. -/
def BinaryOp.operandType? : BinaryOp → Option Ty
  | .add | .sub | .mul | .div | .mod => some .int
  | .fadd | .fsub | .fmul | .fdiv | .pow => some .float
  | .concat => some .string
  | .lt | .le | .gt | .ge | .eq | .ne | .same | .differs => none

/-- An operator on numbers or strings reports the first operand that it rejects. -/
theorem BinaryOp.eval_of_rejected {op : BinaryOp} {t : Ty} (hop : op.operandType? = some t)
    {l r : Value} (h : t.accepts l.type = false ∨ t.accepts r.type = false) (span : Span) :
    op.eval l r span = .error (.operand t l r span) := by
  have hints : ∀ f, Ty.int.accepts l.type = false ∨ Ty.int.accepts r.type = false →
      onInts f l r span = .error (.operand .int l r span) := by
    intro f h
    unfold onInts
    split
    · simp [Value.type] at h
    · rfl
  have hfloats : ∀ f, Ty.float.accepts l.type = false ∨ Ty.float.accepts r.type = false →
      onFloats f l r span = .error (.operand .float l r span) := by
    intro f h
    unfold onFloats
    split
    · simp [Value.type] at h
    · rfl
  have hstrings : ∀ f, Ty.string.accepts l.type = false ∨ Ty.string.accepts r.type = false →
      onStrings f l r span = .error (.operand .string l r span) := by
    intro f h
    unfold onStrings
    split
    · simp [Value.type] at h
    · rfl
  cases op with
  | add | sub | mul | div | mod =>
    cases hop
    exact hints _ h
  | fadd | fsub | fmul | fdiv | pow =>
    cases hop
    exact hfloats _ h
  | concat =>
    cases hop
    exact hstrings _ h
  | lt | le | gt | ge | eq | ne | same | differs => cases hop

/-! ### Places -/

/-- The fault has a place, and it is one of the places. -/
def Fault.Points (place : Span → Prop) (f : Fault) : Prop :=
  ∃ span, f.span? = some span ∧ place span

/-- A node that stands at one of the places and is no empty sequence. -/
def Expr.Sited (place : Span → Prop) (n : Expr) : Prop := place n.span ∧ n.isHollow = false

/-- A primitive function with a function type, or a function of the language whose body stands at
the places. -/
def Closure.Sited (place : Span → Prop) : Closure → Prop
  | .native _ _ type _ => type.arity?.isSome = true
  | .user _ _ body _ => body.All (Expr.Sited place)
  | .monitored _ _ _ _ _ _ => True

section Sited

variable {place : Span → Prop}

theorem Closure.arity?_type_of_sited : ∀ {c : Closure}, c.All (Closure.Sited place) →
    c.type.arity? = some c.arity
  | .native _ _ type _, h => by
    obtain ⟨n, hn⟩ := Option.isSome_iff_exists.mp (Closure.all_native.mp h)
    rw [Closure.type, Closure.arity, hn, Option.getD_some]
  | .user _ params _ _, _ => Ty.arity?_polymorphic params.length
  | .monitored _ inner _ _ _ _, h =>
    Closure.arity?_type_of_sited (c := inner) (Closure.all_monitored.mp h).2.1

theorem Value.typed_of_sited {v : Value} (h : v.All (Closure.Sited place)) : v.Typed := by
  rintro c rfl
  exact Closure.arity?_type_of_sited (Value.all_closure.mp h)

/-- **Evaluations in which every tree stands at the places.** A fault that leaves the body of a
function may still be without a place. -/
def Regime.sited {store : Store} (hstore : store.Each (Value.All (Closure.Sited place))) :
    Regime store where
  fit e env := e.All (Expr.Sited place) ∧ env.All (Closure.Sited place)
  value := Value.All (Closure.Sited place)
  contract k _ _ := k.All (Closure.Sited place)
  place := place
  fault f := f.Points place ∧ f.Genuine
  escape f := (∀ span, f.span? = some span → place span) ∧ f.Genuine
  span _ _ he := he.1.self.1
  operands _ _ he p hp := ⟨he.1.operands p hp, he.2⟩
  found _ _ _ he hv := he.2.get? hstore hv
  unbound x _ he _ := ⟨⟨x.span, rfl, he.1.self.1⟩, by rintro _ _ ⟨⟩⟩
  lambda _ _ _ _ _ he :=
    Value.all_closure.mpr (Closure.all_user.mpr ⟨(Expr.all_lambda.mp he.1).2, he.2⟩)
  bind _ _ _ _ _ _ he hw := ⟨(Expr.all_letIn.mp he.1).2.2, Env.all_bind.mpr ⟨hw, he.2⟩⟩
  hollow _ _ he := by cases he.1.self.2
  predicates _ _ _ _ _ he _ hp := ⟨(Expr.all_monitored.mp he.1).2.2.predicates hp, Env.all_root⟩
  resolved _ _ _ _ _ _ _ hc := Contract.all_of_denotes hc
  body _ params _ _ _ hc hargs _ := by
    obtain ⟨hbody, henv⟩ := Closure.all_user.mp (Value.all_closure.mp hc)
    exact ⟨hbody, Env.bindAll_of_bind (fun _ _ _ ha he => Env.all_bind.mpr ⟨ha, he⟩) henv params
      hargs⟩
  primitive _ h := Value.all_of_isClosure h
  wrap _ _ _ _ _ _ _ hk hc _ := Value.all_closure.mpr
    (Closure.all_monitored.mpr ⟨trivial, Value.all_closure.mp hc, Contract.all_function.mp hk⟩)
  unwrap _ _ _ _ _ _ hc := by
    obtain ⟨-, hinner, hcontracts⟩ := Closure.all_monitored.mp (Value.all_closure.mp hc)
    exact ⟨Value.all_closure.mpr hinner, hcontracts⟩
  predicate _ _ _ _ hk := Value.all_closure.mpr (Contract.all_base.mp hk)
  rejected _ _ _ _ span _ _ hspan := ⟨⟨span, rfl, hspan⟩, by rintro _ _ ⟨⟩⟩
  arises span _ hspan h := ⟨⟨span, h.span?_eq, hspan⟩, h.genuine fun _ => Value.typed_of_sited⟩
  misses _ _ hargs h := by
    refine ⟨?_, h.genuine fun a ha => Value.typed_of_sited (hargs a ha)⟩
    -- A primitive function knows no place.
    obtain ⟨p, found, rfl, -⟩ := h
    rintro _ ⟨⟩
  host _ _ _ := Value.all_of_isClosure rfl
  limit := ⟨by rintro _ ⟨⟩, by rintro _ _ ⟨⟩⟩
  escapes f hf := by
    obtain ⟨⟨span, hspan, hplace⟩, hgenuine⟩ := hf
    refine ⟨fun span' hspan' => ?_, hgenuine⟩
    rw [hspan] at hspan'
    cases hspan'
    exact hplace
  locate span f hspan hf := by
    refine ⟨?_, hf.2⟩
    cases hf' : f.span? with
    | none => exact ⟨span, by rw [Fault.locate, hf', Option.none_or], hspan⟩
    | some span' => exact ⟨span', by rw [Fault.locate, hf', Option.some_or], hf.1 span' hf'⟩

theorem Expr.Sited.monitor {n : Expr} (h : n.Sited place) (scopes : ScopeStack) :
    (n.monitor scopes).Sited place := by
  rw [Expr.Sited, n.span_monitor, n.isHollow_monitor]
  exact h

end Sited

/-! ### Sessions -/

theorem Workspace.sited_registered {place : Span → Prop} {w : Workspace}
    (h : w.store.Each (Value.All (Closure.Sited place))) (c : Chain) {b : Builtin}
    (hcheck : b.check = .ok ()) :
    (w.registered c b).store.Each (Value.All (Closure.Sited place)) := by
  refine h.define c b.name (Value.all_closure.mpr (Closure.all_native.mpr ?_))
  exact Option.isSome_iff_exists.mpr ⟨b.arity, (b.arity_of_check hcheck).1⟩

/-- The types of a failure that is a type error: the expected one, and the one that was found. -/
def Failure.mismatch? : Failure → Option (Ty × Ty)
  | .fault ⟨.typeMismatch expected found, _⟩ => some (expected, found)
  | _ => none

theorem Failure.mismatch?_eq_some {f : Failure} {expected found : Ty}
    (h : f.mismatch? = some (expected, found)) :
    ∃ span?, f = .fault ⟨.typeMismatch expected found, span?⟩ := by
  unfold Failure.mismatch? at h
  split at h
  · cases h
    exact ⟨_, rfl⟩
  · cases h

namespace Session

/-- The closures that are bound in a session and the contracts that are declared in it stand at the
places. -/
structure Sited (place : Span → Prop) (s : Session) : Prop where
  /-- The closures inside the values that are bound. -/
  store : s.workspace.store.Each (Value.All (Closure.Sited place))
  /-- The contracts. -/
  contracts : ∀ name k, s.scopes.lookup? name = some k → k.All (Expr.Sited place)

variable {place : Span → Prop} {s : Session}

theorem sited_start (contracts : Bool) : (Session.start contracts).Sited place where
  store := Workspace.install_of_register
    (P := fun w => w.store.Each (Value.All (Closure.Sited place))) Store.each_init
    fun _ _ h hb => Workspace.sited_registered h Store.global hb
  contracts name k hk := by cases hk

namespace Sited

/-- The tree that is evaluated for an expression stands at the places. -/
theorem annotate (h : s.Sited place) {e : Expr} (he : e.All (Expr.Sited place)) :
    (s.annotate e).All (Expr.Sited place) := by
  unfold Session.annotate
  split
  · exact Expr.all_monitor (fun n hn => hn.monitor s.scopes) h.contracts he
  · exact he

/-- The tree that is evaluated for a global binding stands at the places. -/
theorem annotateBinding (h : s.Sited place) (name : String) {e : Expr}
    (he : e.All (Expr.Sited place)) : (s.annotateBinding name e).All (Expr.Sited place) := by
  have hvalue : (e.monitor (s.scopes.push name)).All (Expr.Sited place) := by
    refine Expr.all_monitor (fun n hn => hn.monitor _) ?_ he
    exact h.contracts
  rw [annotateBinding_eq]
  split
  · split
    · rename_i k hk
      -- The contract of the name stands around the value, at the same place.
      exact Expr.all_monitored.mpr ⟨⟨hvalue.self.1, rfl⟩, hvalue, h.contracts name k hk⟩
    · exact hvalue
  · exact he

theorem declaring (h : s.Sited place) (name : String) {k : ContractExpr}
    (hk : k.All (Expr.Sited place)) : (s.declaring name k).Sited place := by
  refine ⟨h.store, fun name' k' hk' => ?_⟩
  rw [Session.declaring, ScopeStack.lookup?_declare] at hk'
  split at hk'
  · cases hk'
    exact hk
  · exact h.contracts name' k' hk'

/-- **One statement** that stands at the places keeps everything there, and what goes wrong in it
goes wrong there. -/
theorem execute (h : s.Sited place) {stmt : Stmt} (hstmt : ∀ n ∈ stmt.nodes, n.Sited place) :
    (s.execute stmt).2.Sited place ∧
      ∀ f, .ofExcept (s.execute stmt).1 = StatementResult.failed (.fault f) →
        f.Points place ∧ f.Genuine := by
  have heval : ∀ e : Expr, e.All (Expr.Sited place) →
      Spec (e.eval s.workspace.store globalEnv) (Value.All (Closure.Sited place))
        fun f => f.Points place ∧ f.Genuine := fun e he =>
    (Regime.sited h.store).spec_eval ⟨he, Env.all_frames⟩
  cases stmt with
  | expr e span =>
    have hspec := heval _ (h.annotate hstmt)
    rw [execute_expr]
    cases hv : (s.annotate e).eval s.workspace.store globalEnv s.workspace.counters with
    | ok v c => exact ⟨⟨h.store, h.contracts⟩, fun f hf => by cases hf⟩
    | error f c =>
      refine ⟨⟨h.store, h.contracts⟩, ?_⟩
      rintro g ⟨⟩
      exact (hspec.of_error hv).1
  | define x e span =>
    have hspec := heval _ (h.annotateBinding x.text hstmt)
    rw [execute_define]
    cases hv : (s.annotateBinding x.text e).eval s.workspace.store globalEnv
        s.workspace.counters with
    | ok v c =>
      have hsited := (hspec.of_ok hv).1
      exact ⟨⟨h.store.define Store.global x.text hsited, h.contracts⟩, fun f hf => by cases hf⟩
    | error f c =>
      refine ⟨⟨h.store, h.contracts⟩, ?_⟩
      rintro g ⟨⟩
      exact (hspec.of_error hv).1
  | contract x k span =>
    cases hon : s.contracts with
    | false =>
      rw [execute_contract_off hon]
      exact ⟨h, fun f hf => by cases hf⟩
    | true =>
      have hk : k.All (Expr.Sited place) := hstmt
      have hspec : Spec (k.resolve s.workspace.store globalEnv) _
          fun f => f.Points place ∧ f.Genuine :=
        (Regime.sited h.store).spec_resolve fun p hp => ⟨hk.predicates hp, Env.all_frames⟩
      rw [execute_contract hon]
      cases hv : k.resolve s.workspace.store globalEnv s.workspace.counters with
      | ok c counters =>
        have hcounting : (s.counting counters).Sited place := ⟨h.store, h.contracts⟩
        exact ⟨hcounting.declaring x.text hk, fun f hf => by cases hf⟩
      | error f counters =>
        refine ⟨⟨h.store, h.contracts⟩, ?_⟩
        rintro g ⟨⟩
        exact (hspec.of_error hv).1

/-- Any number of statements that stand at the places. -/
theorem executeAll (h : s.Sited place) {stmts : List Stmt}
    (hstmts : ∀ stmt ∈ stmts, ∀ n ∈ stmt.nodes, n.Sited place) :
    (s.executeAll stmts).2.Sited place ∧
      ∀ f, .failed (.fault f) ∈ (s.executeAll stmts).1 → f.Points place ∧ f.Genuine := by
  induction stmts generalizing s with
  | nil => exact ⟨h, by simp [Session.executeAll]⟩
  | cons stmt stmts ih =>
    rw [List.forall_mem_cons] at hstmts
    obtain ⟨hnext, hfault⟩ := h.execute hstmts.1
    obtain ⟨hlast, hfaults⟩ := ih hnext hstmts.2
    refine ⟨hlast, fun f hf => ?_⟩
    rcases List.mem_cons.mp hf with hf | hf
    · exact hfault f hf.symm
    · exact hfaults f hf

/-- A run of a program that stands at the places and has no empty sequences. -/
theorem runReading (h : s.Sited place) {r : Reading} (hregular : r.program.Regular)
    (hplace : ∀ stmt ∈ r.program.body, ∀ n ∈ stmt.nodes, place n.span) :
    (s.runReading r).Sited place ∧
      ∀ f, .fault f ∈ (s.runReading r).failures → f.Points place ∧ f.Genuine := by
  have hnodes : ∀ stmt ∈ r.program.body, ∀ n ∈ stmt.nodes, n.Sited place :=
    fun stmt hstmt n hn =>
      ⟨hplace stmt hstmt n hn, (Expr.isRegular_iff.mp (hregular stmt hstmt n hn)).2⟩
  obtain ⟨hlast, hfaults⟩ := h.executeAll hnodes
  refine ⟨?_, fun f hf => hfaults f (mem_executeAll_of_fault hf)⟩
  rw [runReading_eq]
  exact ⟨hlast.store, hlast.contracts⟩

end Sited

/-- **Every fault of a run points into the program.** Whatever source text is run in a new session,
with or without contracts, each fault that is recorded has a place, and a node of the program stands
there: in an expression, in the value of a binding, in the body of a function, or in a predicate of
a contract. -/
theorem fault_in_program (contracts : Bool) (source : String) {f : Fault}
    (hf : .fault f ∈ ((Session.start contracts).run source).failures) :
    ∃ span, f.span? = some span ∧
      ∃ stmt ∈ (Program.recover source).program.body, ∃ n ∈ stmt.nodes, n.span = span := by
  have hregular := (Program.parsed_recover source).regular
  have hplace : ∀ stmt ∈ (Program.recover source).program.body, ∀ n ∈ stmt.nodes,
      ∃ stmt' ∈ (Program.recover source).program.body, ∃ n' ∈ stmt'.nodes, n'.span = n.span :=
    fun stmt hstmt n hn => ⟨stmt, hstmt, n, hn, rfl⟩
  exact (((sited_start contracts).runReading hregular hplace).2 f hf).1

/-- A predicate that calls itself without end. The call that is refused has no place, and gets that
of the call in the predicate, which is not in the statement that is run. -/
theorem fault_in_program_call_depth :
    let source := "let p x = p x;; contract g = p -> any;; let g y = y;; g 0;;"
    ∃ f : Fault, .fault f ∈ ((Session.start true).run source).failures ∧
      f.cause.kind = "call_depth_exceeded" ∧ f.span? = some ⟨10, 13⟩ ∧
        ∃ stmt ∈ (Program.recover source).program.body, ∃ n ∈ stmt.nodes, n.span = ⟨10, 13⟩ := by
  intro source
  have hfailures : (((Session.start true).run source).failures.map fun f => (f.kind, f.span?)) =
      [("call_depth_exceeded", some ⟨10, 13⟩)] := by decide +kernel
  obtain ⟨failure, hmem, hfailure⟩ := List.exists_of_mem_map
    (hfailures ▸ List.mem_singleton_self ("call_depth_exceeded", some (⟨10, 13⟩ : Span)))
  obtain ⟨hkind, hspan⟩ := Prod.mk.inj hfailure
  cases failure with
  | malformed e => exact absurd hkind (by simp [Failure.kind])
  | fault f =>
    obtain ⟨span, hspan', hnode⟩ := fault_in_program true source hmem
    obtain rfl : span = ⟨10, 13⟩ := Option.some.inj (hspan'.symm.trans hspan)
    exact ⟨f, hmem, hkind, hspan, hnode⟩

/-- A session, with or without contracts, after any number of runs of parsed programs. -/
inductive Sourced : Session → Prop
  /-- A new session. -/
  | start (contracts : Bool) : Sourced (.start contracts)
  /-- A source text is run. -/
  | run {s : Session} (source : String) : Sourced s → Sourced (s.run source)
  /-- A parsed program is run. -/
  | runProgram {s : Session} {p : Program} (hp : p.Parsed) : Sourced s → Sourced (s.runProgram p)

/-- The type errors of a session are genuine. Where its trees stand does not matter. -/
theorem Sourced.sited (h : s.Sourced) :
    s.Sited (fun _ => True) ∧ ∀ f, .fault f ∈ s.failures → f.Genuine := by
  induction h with
  | start contracts =>
    refine ⟨sited_start contracts, fun f hf => ?_⟩
    cases hf
  | run source _ ih =>
    obtain ⟨hlast, hfaults⟩ := ih.1.runReading (Program.parsed_recover source).regular
      fun _ _ _ _ => trivial
    exact ⟨hlast, fun f hf => (hfaults f hf).2⟩
  | @runProgram s p hp _ ih =>
    obtain ⟨hlast, hfaults⟩ := ih.1.runReading (r := ⟨p, []⟩) hp.regular fun _ _ _ _ => trivial
    exact ⟨hlast, fun f hf => (hfaults f hf).2⟩

/-- **Every type error of a session is genuine.** In every session of parsed programs, the type that
a recorded type error expected does not accept the type that it found. Where an operator on numbers
or strings is evaluated, the left operand is reported if it is rejected, and the right one only if
the left one is not. -/
theorem mismatch_genuine :
    (∀ s : Session, s.Sourced → ∀ expected found span?,
      .fault ⟨.typeMismatch expected found, span?⟩ ∈ s.failures →
        expected.accepts found = false) ∧
    ∀ (op : BinaryOp) (t : Ty), op.operandType? = some t →
      ∀ store env (l r : Expr) span v w (c c' c'' : Counters),
        l.eval store env c = .ok v c' → r.eval store env c' = .ok w c'' →
          (t.accepts v.type = false →
            (Expr.binary op l r span).eval store env c = .error (.mismatch t v.type span) c'') ∧
          (t.accepts v.type = true → t.accepts w.type = false →
            (Expr.binary op l r span).eval store env c = .error (.mismatch t w.type span) c'') := by
  refine ⟨fun s hs expected found span? hf => hs.sited.2 _ hf expected found rfl, ?_⟩
  intro op t hop store env l r span v w c c' c'' hv hw
  have heval : (t.accepts v.type = false ∨ t.accepts w.type = false) →
      (Expr.binary op l r span).eval store env c = .error (.operand t v w span) c'' := by
    intro h
    rw [Expr.eval] at hv hw ⊢
    rw [Expr.evalWith, Eval.bind_of_ok hv, Eval.bind_of_ok hw, op.eval_of_rejected hop h]
    rfl
  constructor
  · intro hleft
    rw [heval (.inl hleft), Fault.operand, hleft]
    rfl
  · intro hleft hright
    rw [heval (.inr hright), Fault.operand, hleft]
    rfl

/-- A predicate that gives no truth value is applied in a later run than that of its declaration.
Then two operands are rejected, and the left one is reported. -/
theorem mismatch_genuine_later_run :
    let s := ((Session.start true).run "contract f = (fun x -> x) -> any;; let f y = y;;").run
      "f 0;;"
    s.Sourced ∧
      (∃ expected found span?, .fault ⟨.typeMismatch expected found, span?⟩ ∈ s.failures ∧
        expected.render = "bool" ∧ found.render = "int" ∧ expected.accepts found = false) ∧
      ∀ c, (Expr.binary .add (.lit (.str "a") ⟨0, 3⟩) (.lit (.bool true) ⟨6, 10⟩) ⟨0, 10⟩).eval
        s.workspace.store globalEnv c = .error (.mismatch .int .string ⟨0, 10⟩) c := by
  intro s
  have hsourced : s.Sourced := .run _ (.run _ (.start true))
  have hfailures : (s.failures.filterMap Failure.mismatch?).map
      (fun t => (t.1.render, t.2.render)) = [("bool", "int")] := by decide +kernel
  refine ⟨hsourced, ?_, fun c => ?_⟩
  · obtain ⟨⟨expected, found⟩, hmem, hrender⟩ := List.exists_of_mem_map
      (hfailures ▸ List.mem_singleton_self ("bool", "int"))
    obtain ⟨hexpected, hfound⟩ := Prod.mk.inj hrender
    obtain ⟨failure, hfailure, hmismatch⟩ := List.mem_filterMap.mp hmem
    obtain ⟨span?, rfl⟩ := Failure.mismatch?_eq_some hmismatch
    exact ⟨expected, found, span?, hfailure, hexpected, hfound,
      mismatch_genuine.1 s hsourced expected found span? hfailure⟩
  · exact (mismatch_genuine.2 .add .int rfl s.workspace.store globalEnv _ _ ⟨0, 10⟩ (.str "a")
      (.bool true) c c c rfl rfl).1 rfl

end Session

end ContractML

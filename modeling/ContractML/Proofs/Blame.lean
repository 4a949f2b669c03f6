import ContractML.Proofs.Closures
import ContractML.Proofs.Invariant
import ContractML.Proofs.Parsed
import ContractML.Proofs.Statements

/-!
# Who is blamed

A contract inside an annotation is reached from the annotated contract by steps to a range and to a
domain. The supplier of the annotation answers for what is reached through an even number of steps
to a domain, and the user for the rest.

Wrappers carry contracts and parties beyond the statement that made them: in global bindings, in
captured variables, in arguments and results, and in other wrappers. The invariant is that each of
them answers to an annotation: its labels are written forms of contracts inside the annotation, and
its parties are those that answer for them. Wrapping, swapping the parties for an argument, and
evaluating the contract of a monitored expression keep it, so no violation blames anyone else.

## Main definitions

* `ContractExpr.Sub`, `Annotation.party` — contracts inside a contract, and who answers for them.
* `Answers` — a label and a party that answer to an annotation.
* `Value.Sound`, `Closure.Sound`, `Contract.Sound`, `Env.Sound` — everything inside answers to an
  annotation.
* `Session.Reached` — the states of sessions, with the annotations that the monitor has attached.

## Main results

* `Contract.sound_of_denotes` — evaluating an annotated contract.
* `Session.Sound.execute` — one statement keeps the invariant.
* `Session.Reached.blame_sound` — **every violation blames who answers for the contract**.
-/

namespace ContractML

open Eval (Spec)

/-! ### Contracts inside contracts -/

/-- `c.Sub n d` if `d` is reached from `c` by steps to ranges and `n` steps to domains. -/
inductive ContractExpr.Sub (c : ContractExpr) : Nat → ContractExpr → Prop
  /-- The contract itself. -/
  | refl : c.Sub 0 c
  /-- A step to a domain. -/
  | domain {n : Nat} {ds : List ContractExpr} {r d : ContractExpr} {s : Span} :
      c.Sub n (.arrow ds r s) → d ∈ ds → c.Sub (n + 1) d
  /-- A step to the range. -/
  | range {n : Nat} {ds : List ContractExpr} {r : ContractExpr} {s : Span} :
      c.Sub n (.arrow ds r s) → c.Sub n r

namespace Annotation

/-- Who answers for what is reached through `n` steps to domains: the supplier if `n` is even, else
the user. -/
def party (a : Annotation) (n : Nat) : String :=
  if n % 2 = 0 then a.pos else a.neg.getD topLevel

/-- Two steps to domains change nothing. -/
theorem party_add_two (a : Annotation) (n : Nat) : a.party (n + 2) = a.party n := by
  rw [party, party, Nat.add_mod_right]

end Annotation

/-- The annotation of a monitored expression. -/
def Expr.annotation? : Expr → Option Annotation
  | .monitored _ c pos neg => some ⟨c, pos, neg⟩
  | _ => none

/-- The annotations in an expression. -/
def Expr.annotations (e : Expr) : List Annotation := e.nodes.filterMap Expr.annotation?

/-- The annotations in the tree that a statement evaluates. A contract declaration has none. -/
def Stmt.annotations : Stmt → List Annotation
  | .expr e _ => e.annotations
  | .define _ e _ => e.annotations
  | .contract _ _ _ => []

/-! ### Soundness -/

section Soundness

variable (A : Annotation → Prop)

/-- The label and the party answer to an annotation. -/
def Answers (label party : String) : Prop :=
  ∃ a, A a ∧ ∃ n c, a.contract.Sub n c ∧ label = c.render ∧ party = a.party n

/-- A node that is not monitored, or monitored by one of the annotations. -/
def Expr.Attached (e : Expr) : Prop := ∀ a ∈ e.annotation?, A a

/-- A fault that blames only those who answer for the contract. -/
def Fault.Sound (f : Fault) : Prop :=
  ∀ party label value, f.cause = .contractViolation party label value → Answers A label party

mutual

/-- Everything inside a value answers to an annotation. -/
def Value.Sound : Value → Prop
  | .closure c => c.Sound
  | _ => True

/-- Everything inside a closure answers to an annotation. A wrapper checks its arguments with the
parties swapped. -/
def Closure.Sound : Closure → Prop
  | .native _ _ _ _ => True
  | .user _ _ body env => body.All (Expr.Attached A) ∧ env.Sound
  | .monitored _ inner domain range pos neg =>
    inner.Sound ∧ Contract.SoundAll domain neg pos ∧ range.Sound pos neg

/-- The contract, checked for `pos` against `neg`, answers to an annotation, and so does everything
inside. -/
def Contract.Sound : Contract → (pos neg : String) → Prop
  | .base predicate label, pos, _ => predicate.Sound ∧ Answers A label pos
  | .function domain range label, pos, neg =>
    Contract.SoundAll domain neg pos ∧ range.Sound pos neg ∧ Answers A label pos

/-- All contracts of a list answer to an annotation. -/
def Contract.SoundAll : List Contract → (pos neg : String) → Prop
  | [], _, _ => True
  | c :: cs, pos, neg => c.Sound pos neg ∧ Contract.SoundAll cs pos neg

/-- Everything bound in an environment outside the frames of the store answers to an annotation. -/
def Env.Sound : Env → Prop
  | .frames _ => True
  | .bind _ v outer => v.Sound ∧ outer.Sound

end

/-- Everything bound in a frame answers to an annotation. -/
def Store.Sound (store : Store) : Prop :=
  ∀ i name v, (store.frame i).get? name = some v → v.Sound A

variable {A}

theorem Expr.attached_of_isMonitored {e : Expr} (h : e.isMonitored = false) : e.Attached A := by
  intro a ha
  cases e with
  | monitored e c pos neg => cases h
  | _ => cases ha

/-- All annotations of an expression are among the given ones exactly if those of all its nodes
are. -/
theorem Expr.all_attached {e : Expr} : e.All (Expr.Attached A) ↔ ∀ a ∈ e.annotations, A a := by
  constructor
  · intro h a ha
    obtain ⟨n, hn, hna⟩ := List.mem_filterMap.mp ha
    exact h n hn a hna
  · intro h n hn a hna
    exact h a (List.mem_filterMap.mpr ⟨n, hn, hna⟩)

theorem Contract.soundAll_iff {cs : List Contract} {pos neg : String} :
    Contract.SoundAll A cs pos neg ↔ ∀ c ∈ cs, c.Sound A pos neg := by
  induction cs with
  | nil => simp [Contract.SoundAll]
  | cons c cs ih => rw [Contract.SoundAll, ih, List.forall_mem_cons]

theorem Value.sound_of_isClosure {v : Value} (h : v.isClosure = false) : v.Sound A := by
  cases v with
  | closure c => cases h
  | _ => trivial

theorem Fault.sound_of_isViolation {f : Fault} (h : f.isViolation = false) : f.Sound A := by
  intro party label value hcause
  rw [Fault.isViolation, hcause] at h
  cases h

theorem Contract.Sound.answers {c : Contract} {pos neg : String} (h : c.Sound A pos neg) :
    Answers A c.label pos := by
  cases c with
  | base predicate label => exact h.2
  | function domain range label => exact h.2.2

/-- What a contract inside an annotation denotes is sound, with the parties that answer for it. -/
theorem Contract.sound_of_denotes {a : Annotation} (ha : A a) {k : ContractExpr} {n : Nat}
    (hk : a.contract.Sub n k) {c : Contract} (hc : k.Denotes (Value.Sound A) c) :
    c.Sound A (a.party n) (a.party (n + 1)) := by
  -- A step to a domain swaps the parties, as a wrapper does when it checks an argument.
  induction k generalizing n c with
  | flat e =>
    cases c with
    | base p label =>
      obtain ⟨hp, -, rfl⟩ := hc
      exact ⟨hp, a, ha, n, .flat e, hk, rfl, rfl⟩
    | function domain range label => exact hc.elim
  | arrow ds r s ihds ihr =>
    cases c with
    | base p label => exact hc.elim
    | function domain range label =>
      obtain ⟨hdomain, hrange, rfl⟩ := hc
      refine ⟨Contract.soundAll_iff.mpr ?_, ihr hk.range hrange, a, ha, n, _, hk, rfl, rfl⟩
      intro d hd
      obtain ⟨k, hmem, hden⟩ := hdomain.exists_denotes hd
      have hsound := ihds k hmem (hk.domain hmem) hden
      rwa [a.party_add_two] at hsound

theorem Env.Sound.root {env : Env} (h : env.Sound A) : env.root.Sound A := by
  induction env using Env.root.induct with
  | case1 chain => trivial
  | case2 x v outer ih => exact ih h.2

theorem Env.Sound.get? {store : Store} (hstore : store.Sound A) {env : Env} (henv : env.Sound A)
    {name : String} {v : Value} (hv : env.get? store name = some v) : v.Sound A := by
  induction env using Env.root.induct with
  | case1 chain => exact Store.Each.getIn? hstore hv
  | case2 x w outer ih =>
    rw [Env.get?_bind] at hv
    split at hv
    · cases hv
      exact henv.1
    · exact ih henv.2 hv

/-- **Soundness is an invariant** of evaluations over a sound store. -/
def Invariant.sound {store : Store} (hstore : store.Sound A) : Invariant store where
  node := Expr.Attached A
  value := Value.Sound A
  env := Env.Sound A
  contract := Contract.Sound A
  fault := Fault.Sound A
  primitive _ h := Value.sound_of_isClosure h
  host _ _ _ := Value.sound_of_isClosure rfl
  user _ _ _ _ := Iff.rfl
  wrap _ _ _ _ _ _ _ hk hc _ := ⟨hc, hk.1, hk.2.1⟩
  unwrap _ _ _ _ _ _ hc := ⟨hc.1, Contract.soundAll_iff.mp hc.2.1, hc.2.2⟩
  predicate _ _ _ _ hk := hk.1
  resolved _ k pos neg _ hnode hc := by
    have ha : A ⟨k, pos, neg⟩ := hnode _ rfl
    -- No steps to domains: the parties are those of the annotation.
    exact Contract.sound_of_denotes ha .refl hc
  lookup _ _ _ henv hv := henv.get? hstore hv
  bind _ _ _ hv henv := ⟨hv, henv⟩
  root _ henv := henv.root
  rejected k _ _ _ _ hk _ := by
    rintro party label value ⟨⟩
    exact hk.answers
  other _ h := Fault.sound_of_isViolation h
  locate _ _ hf := hf

end Soundness

/-! ### Sessions -/

/-- What a session records of the violation of a contract. -/
structure Violation where
  /-- Who is blamed. -/
  party : String
  /-- The contract as it is written. -/
  label : String
  /-- The value that was rejected. -/
  value : String
  deriving DecidableEq

/-- The violation that a failure is, if it is one. -/
def Failure.violation? : Failure → Option Violation
  | .fault ⟨.contractViolation party label value, _⟩ => some ⟨party, label, value⟩
  | _ => none

theorem Failure.violation?_eq_some {f : Failure} {v : Violation} (h : f.violation? = some v) :
    ∃ span?, f = .fault ⟨.contractViolation v.party v.label v.value, span?⟩ := by
  unfold Failure.violation? at h
  split at h
  · cases h
    exact ⟨_, rfl⟩
  · cases h

/-- Registering a primitive function keeps the store sound. -/
theorem Workspace.sound_registered {A : Annotation → Prop} {w : Workspace} (h : w.store.Sound A)
    (c : Chain) (b : Builtin) : (w.registered c b).store.Sound A :=
  Store.Each.define h c b.name trivial

namespace Session

/-- Everything bound in the frames of a session answers to an annotation. -/
def Sound (A : Annotation → Prop) (s : Session) : Prop := s.workspace.store.Sound A

/-- The violations of contracts among the failures of the last run. -/
def violations (s : Session) : List Violation := s.failures.filterMap Failure.violation?

/-- The annotations that the monitor attaches when statements are run one after the other. -/
def attached : Session → List Stmt → List Annotation
  | _, [] => []
  | s, stmt :: stmts => (s.monitor stmt).1.annotations ++ (s.execute stmt).2.attached stmts

/-- A session that checks contracts after any number of runs of parsed programs and registrations
of primitive functions, with the annotations that the monitor has attached in them. -/
inductive Reached : Session → List Annotation → Prop
  /-- A new session. -/
  | start : Reached (.start true) []
  /-- A source text is run. -/
  | run {s : Session} {as : List Annotation} (source : String) : Reached s as →
      Reached (s.run source) (as ++ s.attached (Program.recover source).program.body)
  /-- A parsed program is run. -/
  | runProgram {s : Session} {as : List Annotation} {p : Program} (hp : p.Parsed) : Reached s as →
      Reached (s.runProgram p) (as ++ s.attached p.body)
  /-- A primitive function is registered. -/
  | register {s s' : Session} {as : List Annotation} {b : Builtin} : Reached s as →
      s.register b = .ok s' → Reached s' as

variable {A : Annotation → Prop} {s : Session}

theorem sound_start (contracts : Bool) : (Session.start contracts).Sound A := by
  have hinit : Workspace.init.store.Sound A := Store.each_init
  exact Workspace.install_of_register (P := fun w => w.store.Sound A) hinit
    fun _ b h _ => Workspace.sound_registered h Store.global b

/-- **One statement** keeps a session sound, and blames only those who answer for the contract. -/
theorem Sound.execute (h : s.Sound A) {stmt : Stmt} (hplain : stmt.Plain)
    (hstmt : ∀ a ∈ (s.monitor stmt).1.annotations, A a) :
    (s.execute stmt).2.Sound A ∧
      ∀ f, .ofExcept (s.execute stmt).1 = StatementResult.failed (.fault f) → f.Sound A := by
  have heval : ∀ e : Expr, (∀ a ∈ e.annotations, A a) →
      Spec (e.eval s.workspace.store globalEnv) (Value.Sound A) (Fault.Sound A) := by
    intro e he
    exact (Invariant.sound h).spec_eval (Expr.all_attached.mpr he) trivial
  cases stmt with
  | expr e span =>
    rw [monitor_expr] at hstmt
    rw [execute_expr]
    cases hv : (s.annotate e).eval s.workspace.store globalEnv s.workspace.counters with
    | ok v c => exact ⟨h, fun f hf => by cases hf⟩
    | error f c =>
      refine ⟨h, ?_⟩
      rintro g ⟨⟩
      exact ((heval _ hstmt).of_error hv).1
  | define x e span =>
    rw [monitor_define] at hstmt
    rw [execute_define]
    cases hv : (s.annotateBinding x.text e).eval s.workspace.store globalEnv
        s.workspace.counters with
    | ok v c =>
      have hsound : v.Sound A := ((heval _ hstmt).of_ok hv).1
      exact ⟨Store.Each.define h Store.global x.text hsound, fun f hf => by cases hf⟩
    | error f c =>
      refine ⟨h, ?_⟩
      rintro g ⟨⟩
      exact ((heval _ hstmt).of_error hv).1
  | contract x k span =>
    cases hon : s.contracts with
    | false =>
      rw [execute_contract_off hon]
      exact ⟨h, fun f hf => by cases hf⟩
    | true =>
      -- A plain contract has no annotations of its own.
      have hk : k.All (Expr.Attached A) := fun n hn => Expr.attached_of_isMonitored (hplain n hn)
      have hspec : Spec (k.resolve s.workspace.store globalEnv) _ (Fault.Sound A) :=
        (Invariant.sound h).spec_resolve hk trivial
      rw [execute_contract hon]
      cases hv : k.resolve s.workspace.store globalEnv s.workspace.counters with
      | ok c counters => exact ⟨h, fun f hf => by cases hf⟩
      | error f counters =>
        refine ⟨h, ?_⟩
        rintro g ⟨⟩
        exact (hspec.of_error hv).1

/-- Any number of statements keep a session sound, and blame only those who answer for the
contract. -/
theorem Sound.executeAll (h : s.Sound A) {stmts : List Stmt} (hplain : ∀ stmt ∈ stmts, stmt.Plain)
    (hstmts : ∀ a ∈ s.attached stmts, A a) :
    (s.executeAll stmts).2.Sound A ∧
      ∀ f, .failed (.fault f) ∈ (s.executeAll stmts).1 → f.Sound A := by
  induction stmts generalizing s with
  | nil =>
    refine ⟨h, fun f hf => ?_⟩
    rw [Session.executeAll] at hf
    cases hf
  | cons stmt stmts ih =>
    rw [List.forall_mem_cons] at hplain
    rw [attached, List.forall_mem_append] at hstmts
    obtain ⟨hnext, hfault⟩ := h.execute hplain.1 hstmts.1
    obtain ⟨hlast, hfaults⟩ := ih hnext hplain.2 hstmts.2
    refine ⟨hlast, fun f hf => ?_⟩
    rw [Session.executeAll] at hf
    rcases List.mem_cons.mp hf with hf | hf
    · exact hfault f hf.symm
    · exact hfaults f hf

theorem Sound.runReading (h : s.Sound A) {r : Reading} (hplain : r.program.Plain)
    (hstmts : ∀ a ∈ s.attached r.program.body, A a) :
    (s.runReading r).Sound A ∧ ∀ f, .fault f ∈ (s.runReading r).failures → f.Sound A := by
  obtain ⟨hsound, hfaults⟩ := h.executeAll hplain hstmts
  refine ⟨?_, fun f hf => hfaults f (mem_executeAll_of_fault hf)⟩
  rw [runReading_eq]
  exact hsound

/-- Whatever annotations are attached later, a session is sound for all of them. -/
theorem Reached.sound {as : List Annotation} (h : s.Reached as) (has : ∀ a ∈ as, A a) :
    s.Sound A ∧ ∀ f, .fault f ∈ s.failures → f.Sound A := by
  -- The annotations of the last run are fixed first, so no value has to be moved to a larger set.
  induction h with
  | start =>
    refine ⟨sound_start true, fun f hf => ?_⟩
    cases hf
  | run source _ ih =>
    rw [List.forall_mem_append] at has
    exact (ih has.1).1.runReading (Program.parsed_recover source).plain has.2
  | runProgram hp _ ih =>
    rw [List.forall_mem_append] at has
    exact (ih has.1).1.runReading hp.plain has.2
  | @register s s' as b _ hb ih =>
    obtain ⟨-, rfl⟩ := register_eq_ok hb
    exact ⟨Workspace.sound_registered (ih has).1 _ _, (ih has).2⟩

/-- **Blame is sound.** Whenever a session records a violation, the monitor has attached an
annotation in it, and there is a contract inside the annotated one, such that the violation shows
the written form of that contract, and blames the supplier of the annotation if the contract is
reached through an even number of steps to domains, and else the user. -/
theorem Reached.blame_sound {as : List Annotation} (h : s.Reached as) {v : Violation}
    (hv : v ∈ s.violations) :
    ∃ a ∈ as, ∃ n c, a.contract.Sub n c ∧ v.label = c.render ∧
      v.party = if n % 2 = 0 then a.pos else a.neg.getD topLevel := by
  obtain ⟨failure, hmem, hfailure⟩ := List.mem_filterMap.mp hv
  obtain ⟨span?, rfl⟩ := Failure.violation?_eq_some hfailure
  exact (h.sound fun _ ha => ha).2 _ hmem v.party v.label v.value rfl

/-- A function that is passed to `apply` is called there with a negative number. Its domain stands
in a domain of the contract of `apply`, which is two steps to domains, so `apply` is blamed. -/
theorem Reached.blame_sound_nested_domain :
    let source := "contract apply = (positive -> positive) -> any;;
      let apply g = g (0 - 1);; apply (fun x -> x);;"
    let s := (Session.start true).run source
    let as := (Session.start true).attached (Program.recover source).program.body
    s.Reached as ∧ s.violations = [⟨"apply", "positive", "-1"⟩] ∧
      ∃ a ∈ as, ∃ n c, a.contract.Sub n c ∧ "positive" = c.render ∧
        "apply" = if n % 2 = 0 then a.pos else a.neg.getD topLevel := by
  intro source s as
  have hreached : s.Reached as := by
    have hrun := Reached.run source Reached.start
    rwa [List.nil_append] at hrun
  have hviolations : s.violations = [⟨"apply", "positive", "-1"⟩] := by decide +kernel
  refine ⟨hreached, hviolations, ?_⟩
  have hv : ⟨"apply", "positive", "-1"⟩ ∈ s.violations := by
    rw [hviolations]
    exact List.mem_singleton_self _
  exact Reached.blame_sound hreached hv

end Session

end ContractML

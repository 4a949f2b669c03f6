import ContractML.Proofs.Reachable
import ContractML.Proofs.Comparisons
import ContractML.Proofs.RelabelledRuns

/-!
# Names compared with themselves

A name that is bound to a closure stands for one and the same closure wherever it is used, as long
as no function contract is in force for it. A function contract wraps the closure anew at every use,
and each wrapper has an identity of its own. So a name with a function contract differs from itself,
and every other name is the same as itself.

That two wrappers differ rests on the counter of identities, which never goes back. Evaluations do
not depend on the identities that they are given, only on their order, so it is enough to run an
evaluation a second time with gaps between the identities that were given out before it: had the
counter gone back, the two runs would give out identities at different distances.

## Main definitions

* `Relabelling.spread` — identities with gaps between those below a bound.
* `Session.rewraps` — whether a function contract is in force for a name.

## Main results

* `Session.identity_le_of_resolve` — **identities that were given out are not given out again**.
* `Session.reference_cases` — what a use of a name that is bound to a closure gives.
* `Session.name_same_unless_rewrapped` — **a name is the same as itself unless a function contract
  is in force for it**.
-/

namespace ContractML

/-! ### Identities are not given out again -/

/-- The relabelling that leaves gaps between the identities below `n`. -/
def Relabelling.spread (n : Nat) : Relabelling where
  place := id
  identity k := k + min k n
  injective k m h := by
    simp only at h
    omega
  frames := .frames

/-- Identities that go on without gaps are not below the bound. -/
theorem Relabelling.le_of_spread {n m m' : Nat}
    (h : ∀ k, (spread n).identity (m + k) = m' + k) : n ≤ m := by
  have hnow := h 0
  have hlater := h n
  simp only [spread] at hnow hlater
  omega

namespace Session

/-- Evaluating a contract does not set the counter of identities back. -/
theorem identity_le_of_resolve {s : Session} {k : ContractExpr} {contract : Contract}
    {c : Counters} (h : k.resolve s.workspace.store globalEnv s.workspace.counters =
      .ok contract c) : s.workspace.counters.identity ≤ c.identity := by
  -- The run is compared with one whose identities from `n` on are spread. The answer aligns the
  -- counters, which says that the first one has not gone below `n`.
  let n := s.workspace.counters.identity
  have hspread : s.Relabels (.spread n) (s.relabel (.spread n) (n + n)) := by
    refine relabels_relabel rfl fun k => ?_
    change n + k + min (n + k) n = n + n + k
    omega
  have hanswers := hspread.resolve k
  rw [h] at hanswers
  generalize (k.move (Relabelling.spread n).place).resolve _ globalEnv _ = r at hanswers
  cases hanswers with
  | ok hc => exact Relabelling.le_of_spread hc.identity

end Session

/-! ### What a contract makes of a closure -/

theorem Closure.same_self (c : Closure) : c.same c = true := by
  cases c <;> simp [Closure.same]

namespace Contract

variable {call : CallUser} {pos neg : String} {span : Span} {v w : Value} {c d : Counters}

/-- A predicate gives back what it accepts. -/
theorem eq_of_enforce_base {p : Closure} {label : String}
    (h : (base p label).enforceWith call v pos neg span c = .ok w d) : w = v := by
  rw [enforceWith] at h
  obtain ⟨answer, e, -, h⟩ := Eval.bind_eq_ok_iff.mp h
  split at h
  · cases h
    rfl
  · cases h
  · cases h

/-- A function contract wraps a closure under the next identity. -/
theorem eq_of_enforce_function {domain : List Contract} {range : Contract} {label : String}
    {f : Closure}
    (h : (function domain range label).enforceWith call (.closure f) pos neg span c = .ok w d) :
    w = .closure (.monitored c.identity f domain range pos neg) ∧ d.identity = c.identity + 1 := by
  rw [enforceWith, wrap] at h
  split at h
  · cases h
    exact ⟨rfl, rfl⟩
  · cases h

end Contract

/-! ### Uses of a name -/

namespace Session

/-- The contract that is in force for a name. -/
def contractOf? (s : Session) (x : String) : Option ContractExpr :=
  if s.contracts then s.scopes.lookup? x else none

/-- Whether a function contract is in force for a name: every use of the name is wrapped. -/
def rewraps (s : Session) (x : String) : Bool := (s.contractOf? x).any ContractExpr.isArrow

theorem annotate_binary (s : Session) (op : BinaryOp) (l r : Expr) (span : Span) :
    s.annotate (.binary op l r span) = .binary op (s.annotate l) (s.annotate r) span := by
  unfold annotate
  split <;> rfl

theorem annotate_var (s : Session) (x : Ident) :
    s.annotate (.var x) =
      match s.contractOf? x.text with
      | some k => .monitored (.var x) k x.text s.scopes.current?
      | none => .var x := by
  unfold annotate contractOf?
  split <;> rfl

variable {s : Session} {x : String} {f : Closure} {c d : Counters} {v : Value}

theorem eval_var (hx : s.get? x = some v) (span : Span) :
    (Expr.var ⟨x, span⟩).eval s.workspace.store globalEnv c = .ok v c := by
  have hget : globalEnv.get? (Machine.over s.workspace.store).store (Ident.mk x span).text =
      some v := hx
  rw [Expr.eval, Expr.evalWith, hget]
  rfl

/-- A use of a name that is bound to a closure gives the closure itself, or a wrapper with an
identity that is given out for this use. -/
theorem reference_cases (hx : s.get? x = some (.closure f)) (span : Span)
    (h : (s.annotate (.var ⟨x, span⟩)).eval s.workspace.store globalEnv c = .ok v d) :
    (s.rewraps x = false ∧ v = .closure f) ∨
      (s.rewraps x = true ∧ ∃ id domain range pos neg,
        v = .closure (.monitored id f domain range pos neg) ∧ c.identity ≤ id ∧
          id < d.identity) := by
  rw [annotate_var] at h
  cases hk : s.contractOf? x with
  | none =>
    rw [hk] at h
    cases (eval_var hx span).symm.trans h
    exact .inl ⟨by rw [rewraps, hk]; rfl, rfl⟩
  | some k =>
    have hrewraps : s.rewraps x = k.isArrow := by rw [rewraps, hk]; rfl
    rw [hk] at h
    -- The name is looked up, then its contract is evaluated, and then the closure is checked.
    obtain ⟨w, c₁, hw, h⟩ := Eval.bind_eq_ok_iff.mp h
    cases (eval_var hx span).symm.trans hw
    obtain ⟨contract, c₂, hcontract, h⟩ := Eval.bind_eq_ok_iff.mp h
    -- The contract has the shape of its expression, and evaluating it sets no counter back.
    have hdenotes := (((Invariant.trivial s.workspace.store).spec_resolve (k := k)
      (fun _ _ => True.intro) True.intro).of_ok hcontract).1
    have hle := identity_le_of_resolve (s := s.counting c) hcontract
    change contract.enforceWith (callUser s.workspace.store maxCallDepth) (.closure f) x
      (s.scopes.current?.getD topLevel) span c₂ = .ok v d at h
    rw [hrewraps]
    cases k with
    | flat e =>
      cases contract with
      | base p label => exact .inl ⟨rfl, Contract.eq_of_enforce_base h⟩
      | function domain range label => exact hdenotes.elim
    | arrow ds r s =>
      cases contract with
      | base p label => exact hdenotes.elim
      | function domain range label =>
        obtain ⟨hv, hd⟩ := Contract.eq_of_enforce_function h
        exact .inr ⟨rfl, _, _, _, _, _, hv, hle, by omega⟩

/-! ### A name and itself -/

/-- Two uses of a name, one after the other, give identical closures unless each of them is
wrapped. -/
theorem same_references (hx : s.get? x = some (.closure f)) (span span' : Span) {w : Value}
    {e : Counters} (hv : (s.annotate (.var ⟨x, span⟩)).eval s.workspace.store globalEnv c = .ok v d)
    (hw : (s.annotate (.var ⟨x, span'⟩)).eval s.workspace.store globalEnv d = .ok w e)
    (place : Span) : v.same w place = .ok (!s.rewraps x) := by
  -- Whether the uses are wrapped depends on the name alone, so they are both wrapped or neither is.
  -- The identity of the second wrapper is given out after that of the first one.
  rcases reference_cases hx span hv with ⟨hplain, rfl⟩ | ⟨hwraps, id, _, _, _, _, rfl, -, hlt⟩
  · rcases reference_cases hx span' hw with ⟨-, rfl⟩ | ⟨hwraps, -⟩
    · rw [Value.same, f.same_self, hplain]
      rfl
    · exact absurd (hplain.symm.trans hwraps) Bool.false_ne_true
  · rcases reference_cases hx span' hw with ⟨hplain, -⟩ | ⟨-, id', _, _, _, _, rfl, hle, -⟩
    · exact absurd (hplain.symm.trans hwraps) Bool.false_ne_true
    · have hne : (id == id') = false := beq_eq_false_iff_ne.mpr (by omega)
      rw [Value.same, Closure.same, hne, hwraps]
      rfl

/-- The statement that compares a name with itself. -/
def compareWithItself (op : BinaryOp) (x : String) (l r span span' : Span) : Stmt :=
  .expr (.binary op (.var ⟨x, l⟩) (.var ⟨x, r⟩) span) span'

/-- The comparison gives a value exactly if two uses of the name, one after the other, give values
that can be compared. -/
theorem execute_compareWithItself_iff {op : BinaryOp} {l r span span' : Span}
    {result : StatementResult} :
    (s.execute (compareWithItself op x l r span span')).1 = .ok result ↔
      ∃ v w c d u, (s.annotate (.var ⟨x, l⟩)).eval s.workspace.store globalEnv
          s.workspace.counters = .ok v c ∧
        (s.annotate (.var ⟨x, r⟩)).eval s.workspace.store globalEnv c = .ok w d ∧
        op.eval v w span = .ok u ∧ result = .evaluated u := by
  have hexecute := execute_expr s (.binary op (.var ⟨x, l⟩) (.var ⟨x, r⟩) span) span'
  rw [annotate_binary] at hexecute
  rw [compareWithItself, hexecute]
  constructor
  · intro h
    split at h
    next u e heval =>
      obtain ⟨v, c, hv, heval⟩ := Eval.bind_eq_ok_iff.mp heval
      obtain ⟨w, d, hw, heval⟩ := Eval.bind_eq_ok_iff.mp heval
      cases hu : op.eval v w span with
      | error fault =>
        rw [hu] at heval
        cases heval
      | ok a =>
        rw [hu] at heval
        cases heval
        cases h
        exact ⟨v, w, c, e, u, hv, hw, hu, rfl⟩
    next => cases h
  · rintro ⟨v, w, c, d, u, hv, hw, hu, rfl⟩
    -- The operands are evaluated from left to right, and the operator uses up nothing.
    have heval : (Expr.binary op (s.annotate (.var ⟨x, l⟩)) (s.annotate (.var ⟨x, r⟩)) span).eval
        s.workspace.store globalEnv s.workspace.counters = .ok u d := by
      refine Eval.bind_eq_ok_iff.mpr ⟨v, c, hv, Eval.bind_eq_ok_iff.mpr ⟨w, d, hw, ?_⟩⟩
      rw [hu]
      rfl
    rw [heval]

/-- **A name is the same as itself unless a function contract is in force for it.** Let a name be
bound to a closure. If comparing it with itself gives a value, then the value tells that the two
uses are identical if no function contract is in force for the name, and that they differ if there
is one. Without any contract the comparison always gives a value. -/
theorem name_same_unless_rewrapped (hx : s.get? x = some (.closure f)) (l r span span' : Span) :
    (∀ result, (s.execute (compareWithItself .same x l r span span')).1 = .ok result →
      result = .evaluated (.bool !s.rewraps x)) ∧
    (∀ result, (s.execute (compareWithItself .differs x l r span span')).1 = .ok result →
      result = .evaluated (.bool (s.rewraps x))) ∧
    (s.contractOf? x = none →
      (s.execute (compareWithItself .same x l r span span')).1 = .ok (.evaluated (.bool true)) ∧
      (s.execute (compareWithItself .differs x l r span span')).1 =
        .ok (.evaluated (.bool false))) := by
  refine ⟨?_, ?_, ?_⟩
  · intro result h
    obtain ⟨v, w, c, d, u, hv, hw, hu, rfl⟩ := execute_compareWithItself_iff.mp h
    rw [BinaryOp.eval, same_references hx l r hv hw] at hu
    cases hu
    rfl
  · intro result h
    obtain ⟨v, w, c, d, u, hv, hw, hu, rfl⟩ := execute_compareWithItself_iff.mp h
    rw [BinaryOp.eval, same_references hx l r hv hw] at hu
    cases hu
    exact congrArg (fun b => StatementResult.evaluated (.bool b)) (Bool.not_not _)
  · intro hnone
    -- Without a contract a use of the name is the closure, and changes no counter.
    have huse : ∀ place, (s.annotate (.var ⟨x, place⟩)).eval s.workspace.store globalEnv
        s.workspace.counters = .ok (.closure f) s.workspace.counters := by
      intro place
      rw [annotate_var, hnone]
      exact eval_var hx place
    have hsame : f.same f = true := f.same_self
    constructor
    all_goals
      refine execute_compareWithItself_iff.mpr ⟨_, _, _, _, _, huse l, huse r, ?_, rfl⟩
      rw [BinaryOp.eval, Value.same, hsame]
      rfl

theorem exists_closure_of_get? (h : (s.get? x).map Value.prim? = some none) :
    ∃ f, s.get? x = some (.closure f) := by
  obtain ⟨v, hv, hprim⟩ := Option.map_eq_some_iff.mp h
  obtain ⟨f, rfl⟩ := Value.exists_closure_of_prim? hprim
  exact ⟨f, hv⟩

/-- The truth value that a statement was evaluated to. -/
def answer? : Except Fault StatementResult → Option Bool
  | .ok (.evaluated (.bool b)) => some b
  | _ => none

theorem exists_of_answer? {result : Except Fault StatementResult} (h : (answer? result).isSome) :
    ∃ r, result = .ok r := by
  cases result with
  | ok r => exact ⟨r, rfl⟩
  | error fault => cases h

/-- Two functions, the first one under a predicate and the second one under a function contract: the
first one is the same as itself, and the second one differs from itself. -/
theorem name_same_unless_rewrapped_identity :
    let s := (Session.start true).run
      "contract f = any;; let f x = x;; contract g = any -> any;; let g x = x;;"
    let compare op name := (s.execute (compareWithItself op name ⟨0, 1⟩ ⟨5, 6⟩ ⟨0, 6⟩ ⟨0, 8⟩)).1
    s.Reachable ∧ compare .same "f" = .ok (.evaluated (.bool true)) ∧
      compare .differs "g" = .ok (.evaluated (.bool true)) := by
  intro s compare
  obtain ⟨hf, hg, hplain, hwraps, ha, hb⟩ : (s.get? "f").map Value.prim? = some none ∧
      (s.get? "g").map Value.prim? = some none ∧ s.rewraps "f" = false ∧ s.rewraps "g" = true ∧
      (answer? (compare .same "f")).isSome ∧ (answer? (compare .differs "g")).isSome := by
    decide +kernel
  obtain ⟨f, hf⟩ := exists_closure_of_get? hf
  obtain ⟨g, hg⟩ := exists_closure_of_get? hg
  obtain ⟨a, ha⟩ := exists_of_answer? ha
  obtain ⟨b, hb⟩ := exists_of_answer? hb
  have hsame := (name_same_unless_rewrapped hf ⟨0, 1⟩ ⟨5, 6⟩ ⟨0, 6⟩ ⟨0, 8⟩).1 a ha
  have hdiffers := (name_same_unless_rewrapped hg ⟨0, 1⟩ ⟨5, 6⟩ ⟨0, 6⟩ ⟨0, 8⟩).2.1 b hb
  rw [hplain] at hsame
  rw [hwraps] at hdiffers
  exact ⟨.run _ (.start true), hsame ▸ ha, hdiffers ▸ hb⟩

/-- A name need not be the same as itself. -/
theorem name_may_differ_from_itself :
    ∃ s : Session, s.Reachable ∧ ∃ x f l r span span', s.get? x = some (.closure f) ∧
      answer? (s.execute (compareWithItself .same x l r span span')).1 = some false ∧
      answer? (s.execute (compareWithItself .differs x l r span span')).1 = some true := by
  let s := (Session.start true).run "contract f = any -> any;; let f x = x;;"
  let compare op := answer? (s.execute (compareWithItself op "f" ⟨0, 1⟩ ⟨5, 6⟩ ⟨0, 6⟩ ⟨0, 8⟩)).1
  obtain ⟨hf, hsame, hdiffers⟩ : (s.get? "f").map Value.prim? = some none ∧
      compare .same = some false ∧ compare .differs = some true := by
    decide +kernel
  obtain ⟨f, hf⟩ := exists_closure_of_get? hf
  exact ⟨s, .run _ (.start true), "f", f, _, _, _, _, hf, hsame, hdiffers⟩

end Session

end ContractML

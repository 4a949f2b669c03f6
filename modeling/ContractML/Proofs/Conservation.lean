import ContractML.Proofs.Reachable
import ContractML.Session.Framed

/-!
# Acts leave old frames alone

An act writes only to frames that it has opened itself. Whatever it does, and whether it gives a
value or fails, every frame that was there before has the bindings that it had, and as many calls
are open. There is one rule for each way in which acts are put together. The only step that writes
is the one that opens a frame, and it writes to that frame.

Nothing is assumed of the chains and the closures that turn up: a closure may have been made by the
embedding program, and may lead to any frame.

## Main definitions

* `Table.fill` — a table with more bindings.
* `Workspace.Grows` — frames may have been added, and nothing else has been done to them.
* `Act.Grows` — an act that does no more than this.

## Main results

* `Workspace.enclose_spec`, `Workspace.grows_enclose` — opening a frame.
* `Act.Grows.bind`, `Act.Grows.locate`, `Act.Grows.deeper` — the rules.
* `grows_applyFramed`, `grows_evalFramed`, `grows_callFramed` — the evaluator, part by part.
* `FramedMachine.grows_top` — **no evaluation writes to an old frame or leaves a call open**.
-/

namespace ContractML

open Eval (Spec Closes)

/-! ### Workspaces that grow -/

/-- The table with more bindings, the first one first. -/
def Table.fill (t : Table Value) (bindings : List (String × Value)) : Table Value :=
  bindings.foldl (fun t p => t.insert p.1 p.2) t

/-- Every frame has the bindings that it had, frames may have been added, and as many calls are
open. -/
structure Workspace.Grows (w w' : Workspace) : Prop where
  size : w.store.frames.size ≤ w'.store.frames.size
  frame : ∀ i < w.store.frames.size, w'.store.frame i = w.store.frame i
  depth : w'.counters.depth = w.counters.depth

namespace Workspace

theorem Grows.refl (w : Workspace) : w.Grows w := ⟨Nat.le_refl _, fun _ _ => rfl, rfl⟩

theorem Grows.trans {w w' w'' : Workspace} (h : w.Grows w') (h' : w'.Grows w'') :
    w.Grows w'' where
  size := Nat.le_trans h.size h'.size
  frame i hi := (h'.frame i (Nat.lt_of_lt_of_le hi h.size)).trans (h.frame i hi)
  depth := h'.depth.trans h.depth

@[simp] theorem size_define (w : Workspace) (c : Chain) (name : String) (v : Value) :
    (w.define c name v).store.frames.size = w.store.frames.size := by
  simp [define, Store.define]

theorem frame_extend (s : Store) (c : Chain) (i : Nat) : (s.extend c).2.frame i = s.frame i := by
  -- The new frame is empty, as a frame is that does not exist.
  rcases Nat.lt_trichotomy i s.frames.size with hi | rfl | hi
  · simp [Store.extend, Store.frame, Array.getElem?_push_lt hi, hi]
  · simp [Store.extend, Store.frame]
  · have hne : ¬i < s.frames.size := by omega
    have hlast : i ≠ s.frames.size := by omega
    simp [Store.extend, Store.frame, Array.getElem?_push, hlast, hne]

/-- Filling the innermost frame of a chain binds the names in it, and changes nothing else. -/
theorem foldl_define (child : Chain) (ps : List (String × Value)) (w : Workspace)
    (hchild : child.frame < w.store.frames.size) :
    let w' := ps.foldl (fun w p => w.define child p.1 p.2) w
    w'.counters = w.counters ∧ w'.store.frames.size = w.store.frames.size ∧
      w'.store.frame child.frame = (w.store.frame child.frame).fill ps ∧
      ∀ i ≠ child.frame, w'.store.frame i = w.store.frame i := by
  induction ps generalizing w with
  | nil => exact ⟨rfl, rfl, rfl, fun _ _ => rfl⟩
  | cons p ps ih =>
    have hsize := w.size_define child p.1 p.2
    obtain ⟨hcounters, hsize', hown, hother⟩ := ih (w.define child p.1 p.2) (hsize ▸ hchild)
    refine ⟨hcounters, hsize'.trans hsize, ?_, fun i hi => ?_⟩
    · rw [List.foldl_cons, hown, define, Store.frame_define, if_pos ⟨rfl, hchild⟩]
      rfl
    · rw [List.foldl_cons, hother i hi, define, Store.frame_define, if_neg fun h => hi h.1.symm]

/-- The frame that is opened holds the parameters, and all else stays as it is. -/
theorem enclose_spec (w : Workspace) (c : Chain) (params : List String) (args : List Value) :
    let w' := (w.enclose c params args).2
    w'.counters = w.counters ∧ w'.store.frames.size = w.store.frames.size + 1 ∧
      w'.store.frame w.store.frames.size = Table.empty.fill (params.zip args) ∧
      ∀ i ≠ w.store.frames.size, w'.store.frame i = w.store.frame i := by
  have hsize : (w.extend c).2.store.frames.size = w.store.frames.size + 1 := by
    simp [extend, Store.extend]
  have hchild : (w.extend c).1.frame < (w.extend c).2.store.frames.size := by
    rw [hsize]
    exact Nat.lt_succ_self _
  have hframe : ∀ i, (w.extend c).2.store.frame i = w.store.frame i := frame_extend w.store c
  have hnew : w.store.frame w.store.frames.size = .empty := by simp [Store.frame]
  obtain ⟨hcounters, hsize', hown, hother⟩ :=
    foldl_define (w.extend c).1 (params.zip args) (w.extend c).2 hchild
  refine ⟨hcounters, hsize'.trans hsize, ?_, fun i hi => (hother i hi).trans (hframe i)⟩
  -- The new frame begins empty, and the parameters are put into it one by one.
  have hstart : (w.extend c).2.store.frame (w.extend c).1.frame = .empty := (hframe _).trans hnew
  rw [hstart] at hown
  exact hown

/-- Opening a frame and binding names in it writes to no old frame. -/
theorem grows_enclose (w : Workspace) (c : Chain) (params : List String) (args : List Value) :
    w.Grows (w.enclose c params args).2 := by
  obtain ⟨hcounters, hsize, -, hother⟩ := w.enclose_spec c params args
  refine ⟨?_, fun i hi => hother i (Nat.ne_of_lt hi), congrArg Counters.depth hcounters⟩
  rw [hsize]
  exact Nat.le_succ _

end Workspace

/-! ### Acts -/

namespace Act

variable {α β : Type}

@[simp] theorem pure_apply (a : α) (w : Workspace) : (pure a : Act α) w = .ok a w := rfl

theorem bind_apply (x : Act α) (k : α → Act β) (w : Workspace) :
    (x >>= k) w = match x w with
      | .ok a w' => k a w'
      | .error f w' => .error f w' := by
  change EStateM.bind x k w = _
  rw [EStateM.bind.eq_def]
  cases x w <;> rfl

/-- The act writes to no old frame, and leaves as many calls open as it finds, whether it gives a
value or fails. -/
def Grows (x : Act α) : Prop :=
  ∀ w, match x w with
    | .ok _ w' => w.Grows w'
    | .error _ w' => w.Grows w'

namespace Grows

variable {x : Act α}

theorem of_ok (h : x.Grows) {w w' : Workspace} {a : α} (hx : x w = .ok a w') : w.Grows w' := by
  have hw := h w
  rwa [hx] at hw

theorem of_error (h : x.Grows) {w w' : Workspace} {f : Fault} (hx : x w = .error f w') :
    w.Grows w' := by
  have hw := h w
  rwa [hx] at hw

protected theorem pure (a : α) : Grows (pure a) := fun w => .refl w

protected theorem throw (f : Fault) : Grows (throw f : Act α) := fun w => .refl w

protected theorem bind {k : α → Act β} (hx : x.Grows) (hk : ∀ a, (k a).Grows) :
    Grows (x >>= k) := by
  intro w
  rw [bind_apply]
  cases hxw : x w with
  | error f w' => exact hx.of_error hxw
  | ok a w' =>
    have hka := hk a w'
    have hw := hx.of_ok hxw
    dsimp only
    split
    next hkw => rw [hkw] at hka; exact hw.trans hka
    next hkw => rw [hkw] at hka; exact hw.trans hka

/-- What touches only the counters touches no frame. -/
protected theorem ofEval {x : Eval α} (h : Closes x) : Grows (ofEval x) := by
  intro w
  unfold Act.ofEval
  cases hx : x w.counters with
  | ok a c => exact ⟨Nat.le_refl _, fun _ _ => rfl, (h.of_ok hx).2⟩
  | error f c => exact ⟨Nat.le_refl _, fun _ _ => rfl, (h.of_error hx).2⟩

protected theorem ofExcept (r : Except Fault α) : Grows (ofEval (Eval.ofExcept r)) :=
  .ofEval (Spec.ofExcept (fun _ _ => trivial) fun _ _ => trivial)

protected theorem get? (c : Chain) (name : String) : Grows (get? c name) := fun w => .refl w

protected theorem enclose (c : Chain) (params : List String) (args : List Value) :
    Grows (enclose c params args) :=
  fun w => w.grows_enclose c params args

/-- Entering an environment opens frames for the variables that it holds itself. -/
protected theorem enter (env : Env) : Grows (enter env) := by
  induction env using Env.root.induct with
  | case1 c => exact .pure c
  | case2 x v outer ih =>
    rw [Act.enter]
    exact ih.bind fun c => .enclose c [x] [v]

protected theorem locate (span : Span) (h : x.Grows) : Grows (locate span x) := by
  intro w
  unfold Act.locate
  cases hx : x w with
  | ok a w' => exact h.of_ok hx
  | error f w' => exact h.of_error hx

/-- The call that is opened is closed again. -/
protected theorem deeper (h : x.Grows) : Grows (deeper x) := by
  intro w
  unfold Act.deeper
  by_cases hlimit : maxCallDepth ≤ w.counters.depth
  · rw [if_pos hlimit]
    exact .refl w
  · rw [if_neg hlimit]
    -- One call more was open inside, and as many as there inside are left.
    have hclose : ∀ {w' : Workspace},
        Workspace.Grows { w with counters.depth := w.counters.depth + 1 } w' →
          w.Grows { w' with counters.depth := w'.counters.depth - 1 } := by
      intro w' hw
      refine ⟨hw.size, hw.frame, ?_⟩
      change w'.counters.depth - 1 = w.counters.depth
      rw [hw.depth]
      rfl
    cases hx : x { w with counters.depth := w.counters.depth + 1 } with
    | ok a w' => exact hclose (h.of_ok hx)
    | error f w' => exact hclose (h.of_error hx)

end Grows

end Act

open Act (Grows)

/-! ### Single steps -/

namespace Eval

variable {α : Type}

theorem closes_checkArity (expected found : Nat) (span : Span) :
    Closes (checkArity expected found span) :=
  (spec_checkArity expected found span).mono (fun _ _ => trivial) fun _ _ => trivial

theorem closes_checkTypes (types : List Ty) (args : List Value) (span : Span) :
    Closes (checkTypes types args span) :=
  (spec_checkTypes (fun _ => True) types args span).mono (fun _ _ => trivial) fun _ _ => trivial

theorem closes_expectBool (v : Value) (span : Span) : Closes (expectBool v span) :=
  Spec.expectBool fun _ _ => trivial

theorem closes_locate_ofExcept (span : Span) (r : Except Fault α) :
    Closes (locate span (ofExcept r)) :=
  Spec.locate (Q := fun _ => True) (fun _ _ => trivial)
    (Spec.ofExcept (fun _ _ => trivial) fun _ _ => trivial)

theorem closes_wrap (domain : List Contract) (range : Contract) (label : String) (c : Closure)
    (pos neg : String) (span : Span) : Closes (Contract.wrap domain range label c pos neg span) :=
  Contract.spec_wrap (fun _ _ => trivial) trivial

end Eval

/-! ### Applying and checking -/

/-- A way of calling that writes to no old frame. -/
def CallFramed.Grows (call : CallFramed) : Prop :=
  ∀ params body env args, (call params body env args).Grows

section Applying

variable [Host] {call : CallFramed}

mutual

/-- Applying a closure writes to no old frame if calling does not. -/
theorem grows_applyFramed (hcall : call.Grows) : ∀ (c : Closure) (args : List Value)
    (span : Span), Grows (c.applyFramed call args span)
  | .native _ _ type body, args, span => by
    rw [Closure.applyFramed]
    refine Grows.bind (.ofEval (Eval.closes_checkArity _ _ _)) fun _ => ?_
    refine Grows.bind (.ofEval (Eval.closes_checkTypes _ _ _)) fun _ => ?_
    exact .ofEval (Eval.closes_locate_ofExcept span _)
  | .user _ params body env, args, span => by
    rw [Closure.applyFramed]
    refine Grows.bind (.ofEval (Eval.closes_checkArity _ _ _)) fun _ => ?_
    exact .locate span (hcall params body env args)
  | .monitored _ inner domain range pos neg, args, span => by
    rw [Closure.applyFramed]
    refine Grows.bind (.ofEval (Eval.closes_checkArity _ _ _)) fun _ => ?_
    refine Grows.bind (grows_enforceAllFramed hcall domain args neg pos span) fun args' => ?_
    refine Grows.bind (grows_applyFramed hcall inner args' span) fun result => ?_
    exact grows_enforceFramed hcall range result pos neg span
termination_by structural c => c

/-- Checking a value writes to no old frame if calling does not. -/
theorem grows_enforceFramed (hcall : call.Grows) : ∀ (k : Contract) (v : Value)
    (pos neg : String) (span : Span), Grows (k.enforceFramed call v pos neg span)
  | .base p label, v, pos, neg, span => by
    rw [Contract.enforceFramed]
    refine Grows.bind (grows_applyFramed hcall p [v] span) fun answer => ?_
    split
    · exact .pure v
    · exact .throw _
    · exact .throw _
  | .function domain range label, v, pos, neg, span => by
    rw [Contract.enforceFramed.eq_def]
    cases v with
    | closure c => exact .ofEval (Eval.closes_wrap domain range label c pos neg span)
    | _ => exact .pure _
termination_by structural k => k

/-- Checking several values writes to no old frame if calling does not. -/
theorem grows_enforceAllFramed (hcall : call.Grows) : ∀ (ks : List Contract) (vs : List Value)
    (pos neg : String) (span : Span), Grows (Contract.enforceAllFramed call ks vs pos neg span)
  | k :: ks, v :: vs, pos, neg, span => by
    rw [Contract.enforceAllFramed]
    refine Grows.bind (grows_enforceFramed hcall k v pos neg span) fun w => ?_
    refine Grows.bind (grows_enforceAllFramed hcall ks vs pos neg span) fun ws => ?_
    exact .pure _
  | [], _, _, _, _ => .pure _
  | _ :: _, [], _, _, _ => .pure _
termination_by structural ks => ks

end

end Applying

/-! ### Evaluating -/

/-- A machine that writes to no old frame. -/
structure FramedMachine.Grows (m : FramedMachine) : Prop where
  apply : ∀ c args span, (m.apply c args span).Grows
  enforce : ∀ k v pos neg span, (m.enforce k v pos neg span).Grows

section Evaluating

variable {m : FramedMachine} {c : Chain}

theorem grows_evalAllFramed {es : List Expr} (h : ∀ e ∈ es, Grows (e.evalFramed m c)) :
    Grows (Expr.evalAllFramed m es c) := by
  induction es with
  | nil => exact .pure _
  | cons e es ih =>
    rw [List.forall_mem_cons] at h
    rw [Expr.evalAllFramed]
    exact Grows.bind h.1 fun v => Grows.bind (ih h.2) fun vs => .pure _

theorem grows_resolveAllFramed {ks : List ContractExpr}
    (h : ∀ k ∈ ks, Grows (k.resolveFramed m c)) :
    Grows (ContractExpr.resolveAllFramed m ks c) := by
  induction ks with
  | nil => exact .pure _
  | cons k ks ih =>
    rw [List.forall_mem_cons] at h
    rw [ContractExpr.resolveAllFramed]
    exact Grows.bind h.1 fun d => Grows.bind (ih h.2) fun ds => .pure _

/-- Evaluating a contract writes to no old frame if its predicates do not. -/
theorem grows_resolveFramed {k : ContractExpr}
    (h : ∀ p ∈ k.predicates, Grows (p.evalFramed m c)) : Grows (k.resolveFramed m c) := by
  induction k with
  | flat e =>
    rw [ContractExpr.resolveFramed]
    exact Grows.bind (h e (by simp [ContractExpr.predicates])) fun v => .ofExcept _
  | arrow ds r s ihds ihr =>
    simp only [ContractExpr.mem_predicates_arrow] at h
    have hds : Grows (ContractExpr.resolveAllFramed m ds c) :=
      grows_resolveAllFramed fun d hd => ihds d hd fun p hp => h p (.inl ⟨d, hd, hp⟩)
    rw [ContractExpr.resolveFramed]
    refine Grows.bind hds fun ks => ?_
    exact Grows.bind (ihr fun p hp => h p (.inr hp)) fun k => .pure _

/-- Evaluating an expression writes to no old frame if the machine does not. -/
theorem grows_evalFramed (hm : m.Grows) (e : Expr) (c : Chain) : Grows (e.evalFramed m c) := by
  induction e generalizing c with
  | lit l s => exact .pure _
  | var x =>
    rw [Expr.evalFramed]
    refine Grows.bind (.get? c x.text) fun found => ?_
    cases found with
    | some v => exact .pure v
    | none => exact .ofExcept (.error ⟨.unboundName x.text, some x.span⟩)
  | unary op e s ih =>
    rw [Expr.evalFramed]
    exact Grows.bind (ih c) fun v => .ofExcept _
  | binary op l r s ihl ihr =>
    rw [Expr.evalFramed]
    exact Grows.bind (ihl c) fun v => Grows.bind (ihr c) fun w => .ofExcept _
  | logical op l r s ihl ihr =>
    have hright : Grows (do
        return .bool (← Act.ofEval (Eval.expectBool (← r.evalFramed m c) r.span)) : Act Value) := by
      refine Grows.bind (ihr c) fun w => ?_
      exact Grows.bind (.ofEval (Eval.closes_expectBool w r.span)) fun b => .pure _
    rw [Expr.evalFramed]
    refine Grows.bind (ihl c) fun v => ?_
    refine Grows.bind (.ofEval (Eval.closes_expectBool v l.span)) fun b => ?_
    split
    · exact .pure _
    · exact .pure _
    · exact hright
  | cond i t e s ihi iht ihe =>
    rw [Expr.evalFramed]
    refine Grows.bind (ihi c) fun v => ?_
    refine Grows.bind (.ofEval (Eval.closes_expectBool v i.span)) fun b => ?_
    split
    · exact iht c
    · exact ihe c
  | lambda ps b s _ =>
    rw [Expr.evalFramed]
    exact Grows.bind (.ofEval Spec.fresh) fun id => .pure _
  | call f args s ihf ihargs =>
    rw [Expr.evalFramed]
    refine Grows.bind (ihf c) fun callee => ?_
    refine Grows.bind (grows_evalAllFramed fun a ha => ihargs a ha c) fun vs => ?_
    cases callee with
    | closure g => exact hm.apply g vs s
    | _ => exact .ofExcept (.error _)
  | letIn x v b s ihv ihb =>
    rw [Expr.evalFramed]
    refine Grows.bind (ihv c) fun w => ?_
    exact Grows.bind (.enclose c [x.text] [w]) fun child => ihb child
  | seq es s ih =>
    rw [Expr.evalFramed]
    refine Grows.bind (grows_evalAllFramed fun e he => ih e he c) fun vs => ?_
    split
    · exact .pure _
    · exact .throw _
  | monitored e k pos neg ih ihk =>
    rw [Expr.evalFramed]
    refine Grows.bind (ih c) fun v => ?_
    refine Grows.bind (grows_resolveFramed fun p hp => ihk p hp c.root) fun contract => ?_
    exact hm.enforce contract v pos _ e.span

end Evaluating

/-! ### Calling -/

section Calling

variable [Host]

theorem FramedMachine.grows_ofCall {call : CallFramed} (hcall : call.Grows) :
    (FramedMachine.ofCall call).Grows where
  apply := grows_applyFramed hcall
  enforce := grows_enforceFramed hcall

/-- Calling writes to no old frame, at every level: the parameters are bound in a new one. -/
theorem grows_callFramed (level : Nat) : (callFramed level).Grows := by
  induction level with
  | zero => exact fun _ _ _ _ => .throw _
  | succ level ih =>
    intro params body env args
    rw [callFramed]
    -- The induction is on the level, since a body may call every function again.
    refine Grows.deeper (Grows.bind (.enter env) fun c => ?_)
    refine Grows.bind (.enclose c params args) fun child => ?_
    exact grows_evalFramed (FramedMachine.grows_ofCall ih) body child

/-- **No evaluation writes to an old frame or leaves a call open.** -/
theorem FramedMachine.grows_top : FramedMachine.top.Grows :=
  grows_ofCall (grows_callFramed maxCallDepth)

end Calling

end ContractML

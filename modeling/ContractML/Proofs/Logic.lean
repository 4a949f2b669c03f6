import ContractML.Eval.Basic

/-!
# Reasoning about evaluations

An evaluation is a function of the counters that gives a value or a fault. Two judgements about
evaluations are enough for everything that is said about the evaluator, and each has one rule for
each way in which evaluations are put together.

`Eval.Spec x P Q` is about one evaluation: its value has the property `P` or its fault the property
`Q`, and as many calls are open after it as before, even if it fails.

`Eval.Simulates R x y` is about two: whenever `x` gives a value, so does `y`, and the values are
related by `R`. The evaluations may give out different identities, but they start and end with the
same number of open calls. Nothing is said if `x` fails.

## Main definitions

* `Eval.Spec`, `Eval.Simulates` — the judgements.

## Main results

* `Eval.Spec.bind`, `Eval.Spec.locate`, `Eval.Spec.deeper` — rules for one evaluation.
* `Eval.Simulates.bind`, `Eval.Simulates.skip`, `Eval.Simulates.deeper` — rules for two.
-/

namespace ContractML.Eval

variable {α β γ δ : Type}

/-! ### Running evaluations -/

@[simp] theorem pure_apply (a : α) (c : Counters) : (pure a : Eval α) c = .ok a c := rfl

theorem bind_apply (x : Eval α) (k : α → Eval β) (c : Counters) :
    (x >>= k) c = match x c with
      | .ok a d => k a d
      | .error f d => .error f d := by
  change EStateM.bind x k c = _
  rw [EStateM.bind.eq_def]
  cases x c <;> rfl

theorem bind_of_ok {x : Eval α} {k : α → Eval β} {c d : Counters} {a : α}
    (h : x c = .ok a d) : (x >>= k) c = k a d := by
  rw [bind_apply, h]

theorem bind_of_error {x : Eval α} {k : α → Eval β} {c d : Counters} {f : Fault}
    (h : x c = .error f d) : (x >>= k) c = .error f d := by
  rw [bind_apply, h]

/-- A compound evaluation gives a value exactly if both its parts do. -/
theorem bind_eq_ok_iff {x : Eval α} {k : α → Eval β} {c d : Counters} {b : β} :
    (x >>= k) c = .ok b d ↔ ∃ a e, x c = .ok a e ∧ k a e = .ok b d := by
  rw [bind_apply]
  constructor
  · intro h
    cases hx : x c with
    | ok a e => exact ⟨a, e, rfl, by rwa [hx] at h⟩
    | error f e => rw [hx] at h; cases h
  · rintro ⟨a, e, hx, hk⟩
    rw [hx]
    exact hk

/-! ### One evaluation -/

/-- The value has the property `P`, or the fault has the property `Q`, and as many calls are open
after the evaluation as before. -/
def Spec (x : Eval α) (P : α → Prop) (Q : Fault → Prop) : Prop :=
  ∀ c, match x c with
    | .ok a d => P a ∧ d.depth = c.depth
    | .error f d => Q f ∧ d.depth = c.depth

namespace Spec

variable {x : Eval α} {P P' : α → Prop} {R : β → Prop} {Q Q' : Fault → Prop}

theorem of_ok (h : Spec x P Q) {c d : Counters} {a : α} (hx : x c = .ok a d) :
    P a ∧ d.depth = c.depth := by
  have hc := h c
  rwa [hx] at hc

theorem of_error (h : Spec x P Q) {c d : Counters} {f : Fault} (hx : x c = .error f d) :
    Q f ∧ d.depth = c.depth := by
  have hc := h c
  rwa [hx] at hc

protected theorem pure {a : α} (h : P a) : Spec (pure a) P Q := fun _ => ⟨h, rfl⟩

protected theorem throw {f : Fault} (h : Q f) : Spec (throw f : Eval α) P Q := fun _ => ⟨h, rfl⟩

protected theorem bind {k : α → Eval β} (hx : Spec x P Q) (hk : ∀ a, P a → Spec (k a) R Q) :
    Spec (x >>= k) R Q := by
  intro c
  cases hxc : x c with
  | error f d =>
    rw [bind_of_error hxc]
    exact hx.of_error hxc
  | ok a d =>
    rw [bind_of_ok hxc]
    obtain ⟨ha, hd⟩ := hx.of_ok hxc
    have hka := hk a ha d
    -- The second evaluation starts with the calls that the first one leaves open, which are those
    -- at the start.
    rw [hd] at hka
    exact hka

theorem mono (h : Spec x P Q) (hP : ∀ a, P a → P' a) (hQ : ∀ f, Q f → Q' f) : Spec x P' Q' := by
  intro c
  cases hxc : x c with
  | ok a d =>
    obtain ⟨ha, hd⟩ := h.of_ok hxc
    exact ⟨hP a ha, hd⟩
  | error f d =>
    obtain ⟨hf, hd⟩ := h.of_error hxc
    exact ⟨hQ f hf, hd⟩

protected theorem ofExcept {r : Except Fault α} (hok : ∀ a, r = .ok a → P a)
    (herr : ∀ f, r = .error f → Q f) : Spec (ofExcept r) P Q := by
  cases r with
  | ok a => exact Spec.pure (hok a rfl)
  | error f => exact Spec.throw (herr f rfl)

protected theorem fresh : Spec fresh (fun _ => True) Q := fun _ => ⟨trivial, rfl⟩

protected theorem expectBool {v : Value} {span : Span} (h : ∀ t u, Q (.mismatch t u span)) :
    Spec (expectBool v span) (fun _ => True) Q := by
  cases v with
  | bool b => exact Spec.pure trivial
  | _ => exact Spec.throw (h _ _)

protected theorem locate {span : Span} (hQ : ∀ f, Q f → Q' (f.locate span)) (h : Spec x P Q) :
    Spec (locate span x) P Q' := by
  intro c
  unfold Eval.locate
  cases hxc : x c with
  | ok a d => exact h.of_ok hxc
  | error f d =>
    obtain ⟨hf, hd⟩ := h.of_error hxc
    exact ⟨hQ f hf, hd⟩

/-- The call that is opened is closed again, whether or not the evaluation in it fails. -/
protected theorem deeper (hQ : Q ⟨.callDepthExceeded, none⟩) (h : Spec x P Q) :
    Spec (deeper x) P Q := by
  intro c
  unfold Eval.deeper
  by_cases hc : maxCallDepth ≤ c.depth
  · rw [if_pos hc]
    exact ⟨hQ, rfl⟩
  · rw [if_neg hc]
    cases hxc : x { c with depth := c.depth + 1 } with
    | ok a d =>
      obtain ⟨ha, hd⟩ := h.of_ok hxc
      exact ⟨ha, by rw [hd]; rfl⟩
    | error f d =>
      obtain ⟨hf, hd⟩ := h.of_error hxc
      exact ⟨hf, by rw [hd]; rfl⟩

end Spec

/-! ### Two evaluations -/

/-- Whenever `x` gives a value, `y` gives one that is related to it. Both start and end with the
same number of open calls. -/
def Simulates (R : α → β → Prop) (x : Eval α) (y : Eval β) : Prop :=
  ∀ ⦃c c' : Counters⦄, c.depth = c'.depth → ∀ ⦃a d⦄, x c = .ok a d →
    ∃ b d', y c' = .ok b d' ∧ d.depth = d'.depth ∧ R a b

namespace Simulates

variable {R : α → β → Prop} {S : γ → δ → Prop} {x : Eval α} {y : Eval β}

protected theorem pure {a : α} {b : β} (h : R a b) : Simulates R (pure a) (pure b) := by
  intro c c' hc a' d hx
  cases hx
  exact ⟨b, c', rfl, hc, h⟩

protected theorem throw {f : Fault} : Simulates R (throw f) y := by
  intro c c' _ a d hx
  cases hx

protected theorem bind {k : α → Eval γ} {l : β → Eval δ} (hx : Simulates R x y)
    (hk : ∀ a b, R a b → Simulates S (k a) (l b)) : Simulates S (x >>= k) (y >>= l) := by
  intro c c' hc a d hxk
  obtain ⟨a₁, e, hxc, hke⟩ := bind_eq_ok_iff.mp hxk
  obtain ⟨b₁, e', hyc, he, hab⟩ := hx hc hxc
  obtain ⟨b, d', hle, hd, hb⟩ := hk a₁ b₁ hab he hke
  exact ⟨b, d', by rw [bind_of_ok hyc, hle], hd, hb⟩

/-- A step that only the first evaluation takes does not matter if it closes all calls it opens. -/
theorem skip {P : α → Prop} {Q : Fault → Prop} {k : α → Eval γ} {z : Eval δ} (hx : Spec x P Q)
    (hk : ∀ a, P a → Simulates S (k a) z) : Simulates S (x >>= k) z := by
  intro c c' hc a d hxk
  obtain ⟨a₁, e, hxc, hke⟩ := bind_eq_ok_iff.mp hxk
  obtain ⟨ha, he⟩ := hx.of_ok hxc
  exact hk a₁ ha (he.trans hc) hke

/-- Evaluations that only the first run makes after the value is known may change the value within
the relation. -/
theorem then_skip {Q : Fault → Prop} {k : α → Eval γ} {T : γ → β → Prop} (hx : Simulates R x y)
    (hk : ∀ a b, R a b → Spec (k a) (fun r => T r b) Q) : Simulates T (x >>= k) y := by
  intro c c' hc a d hxk
  obtain ⟨a₁, e, hxc, hke⟩ := bind_eq_ok_iff.mp hxk
  obtain ⟨b, e', hyc, he, hab⟩ := hx hc hxc
  obtain ⟨hb, hd⟩ := (hk a₁ b hab).of_ok hke
  exact ⟨b, e', hyc, hd.trans he, hb⟩

protected theorem ofExcept {r : Except Fault α} {s : Except Fault β}
    (h : ∀ a, r = .ok a → ∃ b, s = .ok b ∧ R a b) : Simulates R (ofExcept r) (ofExcept s) := by
  cases r with
  | error f => exact Simulates.throw
  | ok a =>
    obtain ⟨b, rfl, hab⟩ := h a rfl
    exact Simulates.pure hab

protected theorem locate {span span' : Span} (h : Simulates R x y) :
    Simulates R (locate span x) (locate span' y) := by
  intro c c' hc a d hx
  unfold Eval.locate at hx ⊢
  cases hxc : x c with
  | error f e => rw [hxc] at hx; cases hx
  | ok a₁ e =>
    rw [hxc] at hx
    cases hx
    obtain ⟨b, d', hyc, hd, hab⟩ := h hc hxc
    exact ⟨b, d', by rw [hyc], hd, hab⟩

/-- Both evaluations reach the limit on open calls at once. -/
protected theorem deeper (h : Simulates R x y) : Simulates R (deeper x) (deeper y) := by
  intro c c' hc a d hx
  unfold Eval.deeper at hx ⊢
  rw [← hc]
  by_cases hlimit : maxCallDepth ≤ c.depth
  · rw [if_pos hlimit] at hx
    cases hx
  · rw [if_neg hlimit] at hx ⊢
    -- Inside the call both have one more call open than before.
    have hinner : ({ c with depth := c.depth + 1 } : Counters).depth =
        ({ c' with depth := c.depth + 1 } : Counters).depth := rfl
    cases hxc : x { c with depth := c.depth + 1 } with
    | error f e => rw [hxc] at hx; cases hx
    | ok a₁ e =>
      rw [hxc] at hx
      cases hx
      obtain ⟨b, d', hyc, hd, hab⟩ := h hinner hxc
      exact ⟨b, { d' with depth := d'.depth - 1 }, by rw [hyc], by rw [hd], hab⟩

protected theorem fresh : Simulates (fun _ _ => True) fresh fresh := by
  intro c c' hc a d hx
  cases hx
  exact ⟨_, _, rfl, hc, trivial⟩

end Simulates

end ContractML.Eval

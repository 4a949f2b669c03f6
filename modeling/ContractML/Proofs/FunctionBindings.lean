import ContractML.Proofs.Respelling

/-!
# Bindings of functions

A binding with parameters is the binding of a function: a text with `let f x y = …` and the text
with `let f = fun x y -> …` in its place are read alike, up to positions. The binding may stand
anywhere in a statement, and anything may follow it. If the texts are well-formed, they are read as
the same statement; if not, both are refused for the same cause. Either way the parser stops at the
same token of both texts.

## Main definitions

* `Parse.SameReading` — two runs have the same result up to positions, and stop at the same token.
* `FunctionBinding.Binds` — a statement that gives the name to a function with the parameters.

## Main results

* `Parse.function_binding_is_lambda` — **a binding with parameters is the binding of a function**.
-/

namespace ContractML

/-- A statement that gives the name to a function with the parameters, for good or in an
expression. -/
inductive FunctionBinding.Binds (b : FunctionBinding) : Stmt → Prop
  | define (body : Expr) (span span' : Span) :
      Binds b (.define ⟨b.name, .nowhere⟩ (b.function body span) span')
  | letIn (body e : Expr) (span span' span'' : Span) :
      Binds b (.expr (.letIn ⟨b.name, .nowhere⟩ (b.function body span) e span') span'')

theorem Stream.Leads.suffix {s t : Stream} (h : s.Leads t) : t.tokens <:+ s.tokens := by
  induction h with
  | refl s => exact List.suffix_rfl
  | step _ _ ih => exact ih.trans (List.suffix_cons _ _)

theorem Stream.kinds_ofKinds (ks : List TokenKind) :
    (Stream.ofKinds ks).tokens.map Token.kind = ks := by
  rw [Stream.ofKinds, List.map_map]
  exact List.map_id ks

theorem Site.fits_bare (s : Stream) : Site.bare.Fits s := .inl ⟨rfl, rfl⟩

namespace Parse

variable {α β : Type} {Q : α → α → Prop} {R : List TokenKind → List TokenKind → Prop}
  {s t : Stream}

/-! ### Runs without positions -/

/-- The first result comes from a stream, the second one from the kinds of its tokens. Both runs
stop at the same token of the stream, with results that `Q` relates or for the same cause. An error
is noticed at the token where the run stops, and never for want of steps. -/
inductive Bares (Q : α → α → Prop) (s : Stream) :
    EStateM.Result SyntaxError Stream α → EStateM.Result SyntaxError Stream α → Prop
  | ok {a a' : α} {t : Stream} (ht : t.tokens <:+ s.tokens) (ha : Q a a') :
      Bares Q s (.ok a t) (.ok a' (.ofKinds (t.tokens.map Token.kind)))
  | error {e : SyntaxError} {t : Stream} (ht : t.tokens <:+ s.tokens) (he : e.span = t.span)
      (hsteps : e.cause ≠ .outOfSteps) :
      Bares Q s (.error e t)
        (.error ⟨e.cause, .nowhere⟩ (.ofKinds (t.tokens.map Token.kind)))

theorem Bares.of_suffix {r r' : EStateM.Result SyntaxError Stream α} (h : Bares Q t r r')
    (ht : t.tokens <:+ s.tokens) : Bares Q s r r' := by
  cases h with
  | ok hu ha => exact .ok (hu.trans ht) ha
  | error hu he hsteps => exact .error (hu.trans ht) he hsteps

/-- A parser that takes no terminator. -/
theorem Follows.bares {P : α → α → Stream → Prop} {x y : Parse α} (h : Follows .bare s P x y)
    (hQ : ∀ a a' t, P a a' t → Q a a') : Bares Q s (x s) (y (s.inside .bare)) := by
  unfold Follows at h
  revert h
  cases x s with
  | ok a t =>
    cases y (s.inside .bare) with
    | error e u => exact fun h => h.elim
    | ok a' u =>
      rintro ⟨rfl, hleads, hP⟩
      rw [Stream.inside_bare]
      exact .ok hleads.suffix (hQ a a' t hP)
  | error e t =>
    cases y (s.inside .bare) with
    | ok a' u => exact fun h => h.elim
    | error e' u =>
      rintro ⟨rfl, hleads, rfl, hspan, hsteps⟩
      rw [Stream.inside_bare]
      exact .error hleads.suffix hspan hsteps

/-- A parser goes on from the token at which another one stopped. -/
theorem Bares.bind {Q' : β → β → Prop} {x y : Parse α} {f g : α → Parse β}
    (h : Bares Q s (x s) (y (s.inside .bare)))
    (hf : ∀ a a' t, Q a a' → Bares Q' t (f a t) (g a' (t.inside .bare))) :
    Bares Q' s ((x >>= f) s) ((y >>= g) (s.inside .bare)) := by
  generalize hr : x s = r at h
  generalize hr' : y (s.inside .bare) = r' at h
  cases h with
  | ok ht ha =>
    rename_i a a' t
    rw [bind_of_ok f hr, bind_of_ok g hr', ← Stream.inside_bare]
    exact (hf a a' t ha).of_suffix ht
  | error ht he hsteps =>
    rw [bind_of_error f hr, bind_of_error g hr']
    exact .error ht he hsteps

theorem expression_bares {n : Nat} (level : Nat) (hn : 8 * s.tokens.length + 4 ≤ n) :
    Bares (fun e e' => e' = e.bare) s (expression n level s)
      (expression n level (.ofKinds (s.tokens.map Token.kind))) := by
  have hready : Ready .bare 4 n n s := ⟨Site.fits_bare s, by omega⟩
  rw [← Stream.inside_bare]
  exact ((localAt .bare n n).expression level s hready).bares fun e e' t h => h.1

/-- The end of a statement may take a terminator. -/
theorem ending_bares {start : Nat} {stmt stmt' : Span → Stmt}
    (h : ∀ span, stmt' (span.move fun _ => 0) = (stmt span).move fun _ => 0) :
    Bares (fun st st' => st' = st.move fun _ => 0) s (ending start stmt s)
      (ending 0 stmt' (s.inside .bare)) := by
  have hkind := Stream.kind?_inside (Site.fits_bare s)
  cases hk : s.kind? with
  | none =>
    rw [ending_of_none hk, ending_of_none (hkind.trans hk), Stream.inside_bare]
    exact .ok List.suffix_rfl (h ⟨start, s.lastStop⟩)
  | some k =>
    cases hterm : k.isTerminator with
    | true =>
      -- The terminator is the one token that a site does not let through, so it is taken by hand.
      obtain rfl := TokenKind.isTerminator_eq_true hterm
      have hadvance : s.advance.tokens <:+ s.tokens := by
        obtain ⟨tokens, lastStop, eof⟩ := s
        cases tokens with
        | nil => exact List.suffix_rfl
        | cons t ts => exact List.suffix_cons t ts
      rw [ending_of_terminator hk, ending_of_terminator (hkind.trans hk),
        Stream.advance_inside hk, Stream.inside_bare]
      exact .ok hadvance (h ⟨start, s.advance.lastStop⟩)
    | false =>
      have hfail : Follows .bare s (fun _ _ _ => False) (ending start stmt) (ending 0 stmt') :=
        ending_of_other (Site.fits_bare s) hk hterm
      exact hfail.bares fun _ _ _ h => h.elim

theorem statement_bares {n : Nat} (hn : 8 * s.tokens.length + 6 ≤ n) :
    Bares (fun st st' => st' = st.move fun _ => 0) s (statement n s)
      (statement n (.ofKinds (s.tokens.map Token.kind))) := by
  have hready : Ready .bare 6 n n s := ⟨Site.fits_bare s, by omega⟩
  -- All but the end of the statement takes no terminator, so locality speaks about it.
  have hbare := (bareStatement_local hready).bares fun stmt stmt' t h => h.1
  have hrun : statement n s = (bareStatement n >>= ending s.span.start) s := rfl
  rw [hrun, statement_ofKinds, ← Stream.inside_bare]
  exact hbare.bind fun stmt stmt' t h => ending_bares h

/-! ### Texts that begin with the binding -/

section Heads

variable {b : FunctionBinding} {rest ks ls : List TokenKind} {n m c d : Nat}

theorem binding_head (hs : Prepared b rest 1 n m (b.short ++ rest) (b.long ++ rest)) :
    Agree b rest rest.length rest.length (binding n (.ofKinds (b.short ++ rest)))
      (binding m (.ofKinds (b.long ++ rest))) := by
  have hsteps := hs.steps
  have hsteps' := hs.steps'
  obtain ⟨n, rfl⟩ : ∃ k, n = k + 1 := ⟨n - 1, by omega⟩
  obtain ⟨m, rfl⟩ : ∃ k, m = k + 1 := ⟨m - 1, by omega⟩
  exact AgreeAt.binding_head (agreeAt b rest n) hs

theorem operand_let (n : Nat) (hk : ks.head? = some (.keyword .kwLet)) :
    operand (n + 1) (.ofKinds ks) =
      (binding n >>= fun x => localLet n 0 x.1 x.2) (.ofKinds ks) := by
  rw [operand, bind_of_ok _ (kind?_ofKinds ks), hk]
  exact bind_of_ok _ (start_ofKinds ks)

/-- An expression that begins with the binding ends after it. -/
theorem expression_head (level : Nat)
    (hs : Prepared b rest 4 n m (b.short ++ rest) (b.long ++ rest)) :
    Agree b rest rest.length rest.length (expression n level (.ofKinds (b.short ++ rest)))
      (expression m level (.ofKinds (b.long ++ rest))) := by
  have hsteps := hs.steps
  have hsteps' := hs.steps'
  have hlen := b.length_short_append rest
  obtain ⟨n, rfl⟩ : ∃ k, n = k + 2 := ⟨n - 2, by omega⟩
  obtain ⟨m, rfl⟩ : ∃ k, m = k + 2 := ⟨m - 2, by omega⟩
  -- A binding at the head is an operand, after which operators may follow.
  have hoperand : Agree b rest rest.length rest.length
      (operand (n + 1) (.ofKinds (b.short ++ rest)))
      (operand (m + 1) (.ofKinds (b.long ++ rest))) := by
    rw [operand_let n rfl, operand_let m rfl]
    refine Agree.bind (binding_head ⟨hs.respelled, by omega, by omega⟩) ?_
    intro x ks₁ ls₁ h₁ _ hlen₁
    exact ((agreeAt b rest n m).localLet 0 x.1 x.2 ⟨h₁, by omega, by omega⟩).mono hlen₁.le
  rw [expression, expression]
  refine Agree.bind hoperand fun left ks₁ ls₁ h₁ _ hlen₁ => ?_
  exact ((agreeAt b rest _ _).operators left level ⟨h₁, by omega, by omega⟩).mono hlen₁

/-- A statement that begins with the binding ends after it. -/
theorem statement_head (hs : Prepared b rest 6 n m (b.short ++ rest) (b.long ++ rest)) :
    Agree b rest rest.length rest.length (statement n (.ofKinds (b.short ++ rest)))
      (statement m (.ofKinds (b.long ++ rest))) := by
  have hsteps := hs.steps
  have hsteps' := hs.steps'
  have hlen := b.length_short_append rest
  rw [statement_ofKinds, statement_ofKinds]
  refine Agree.bind (d := rest.length) ?_ fun stmt ks₁ ls₁ h₁ _ hlen₁ =>
    (Both.ending stmt h₁).mono hlen₁
  rw [bareStatement_let n rfl, bareStatement_let m rfl]
  refine Agree.bind (binding_head ⟨hs.respelled, by omega, by omega⟩) ?_
  intro x ks₁ ls₁ h₁ _ hlen₁
  exact (Both.afterBinding x ⟨h₁, by omega, by omega⟩).mono hlen₁

end Heads

/-! ### The two forms in a text -/

/-- What is read from `s` and from `t` is the same up to positions: both runs succeed, with results
that are the same without positions, or both fail for the same cause, which is not a want of steps.
They stop at tokens from which on `R` relates the kinds, and an error is noticed at that token. -/
inductive SameReading (R : List TokenKind → List TokenKind → Prop) (bare : α → α) (s t : Stream) :
    EStateM.Result SyntaxError Stream α → EStateM.Result SyntaxError Stream α → Prop
  | ok {a a' : α} {u v : Stream} (hu : u.tokens <:+ s.tokens) (hv : v.tokens <:+ t.tokens)
      (hkinds : R (u.tokens.map Token.kind) (v.tokens.map Token.kind)) (ha : bare a = bare a') :
      SameReading R bare s t (.ok a u) (.ok a' v)
  | error {e e' : SyntaxError} {u v : Stream} (hu : u.tokens <:+ s.tokens)
      (hv : v.tokens <:+ t.tokens)
      (hkinds : R (u.tokens.map Token.kind) (v.tokens.map Token.kind))
      (hcause : e.cause = e'.cause) (hsteps : e.cause ≠ .outOfSteps) (hspan : e.span = u.span)
      (hspan' : e'.span = v.span) : SameReading R bare s t (.error e u) (.error e' v)

/-- Texts with the two forms of the binding, and steps enough for both. -/
theorem Prepared.of_kinds {b : FunctionBinding} {before rest : List TokenKind} {c n m : Nat}
    (hs : s.tokens.map Token.kind = before ++ (b.short ++ rest))
    (ht : t.tokens.map Token.kind = before ++ (b.long ++ rest))
    (hn : 8 * s.tokens.length + c ≤ n) (hm : 8 * t.tokens.length + c ≤ m) :
    Prepared b rest c n m (before ++ (b.short ++ rest)) (before ++ (b.long ++ rest)) := by
  have hlen : (before ++ (b.long ++ rest)).length = (before ++ (b.short ++ rest)).length + 2 := by
    simp only [List.length_append, b.length_long]
    omega
  rw [← List.length_map (f := Token.kind), hs] at hn
  rw [← List.length_map (f := Token.kind), ht, hlen] at hm
  exact ⟨.before before, hn, hm⟩

/-- Runs on two texts are compared by way of the runs without positions. -/
theorem SameReading.of_agree {b : FunctionBinding} {rest : List TokenKind} {c d : Nat}
    {bare : α → α} {r r' r₀ r₀' : EStateM.Result SyntaxError Stream α}
    (hs : Bares (fun a a' => a' = bare a) s r r₀) (ht : Bares (fun a a' => a' = bare a) t r' r₀')
    (h : Agree b rest c d r₀ r₀')
    (hR : ∀ ks ls, Respelled b rest ks ls → ks.length ≤ c → R ks ls) :
    SameReading R bare s t r r' := by
  -- The runs stop where the runs without positions do.
  have hstop : ∀ {u v : Stream} {ks ls : List TokenKind},
      Stream.ofKinds (u.tokens.map Token.kind) = .ofKinds ks →
      Stream.ofKinds (v.tokens.map Token.kind) = .ofKinds ls → Respelled b rest ks ls →
      ks.length ≤ c → R (u.tokens.map Token.kind) (v.tokens.map Token.kind) := by
    intro u v ks ls hu hv hkinds hc
    have hu := congrArg (fun s => s.tokens.map Token.kind) hu
    have hv := congrArg (fun s => s.tokens.map Token.kind) hv
    simp only [Stream.kinds_ofKinds] at hu hv
    rw [hu, hv]
    exact hR ks ls hkinds hc
  cases hs with
  | ok hu ha =>
    rename_i a a₀ u
    generalize hks : Stream.ofKinds (u.tokens.map Token.kind) = x at h
    cases ht with
    | error hv he hsteps => cases h
    | ok hv ha' =>
      rename_i a' a₀' v
      generalize hls : Stream.ofKinds (v.tokens.map Token.kind) = y at h
      cases h with
      | ok hkinds hc hd => exact .ok hu hv (hstop hks hls hkinds hc) (ha.symm.trans ha')
  | error hu he hsteps =>
    rename_i e u
    generalize hks : Stream.ofKinds (u.tokens.map Token.kind) = x at h
    generalize hcause : SyntaxError.mk e.cause .nowhere = e₀ at h
    cases ht with
    | ok hv ha' => cases h
    | error hv he' hsteps' =>
      rename_i e' v
      generalize hls : Stream.ofKinds (v.tokens.map Token.kind) = y at h
      generalize hcause' : SyntaxError.mk e'.cause .nowhere = e₀' at h
      cases h with
      | error hkinds hc =>
        have hsame := congrArg SyntaxError.cause (hcause.trans hcause'.symm)
        -- The causes are those of the runs without positions, which are the same.
        exact .error hu hv (hstop hks hls hkinds hc) hsame hsteps he he'

/-! ### What is read from the binding -/

section Shape

variable {b : FunctionBinding} {x : Ident} {v : Expr}

theorem gives_read (n : Nat) :
    Gives (b.read n) fun p => ∃ body span, p = (⟨b.name, .nowhere⟩, b.function body span) := by
  refine Gives.bind (P := fun v => ∃ body span, v = b.function body span) ?_ ?_
  · exact Gives.after fun body => Gives.after fun span => Gives.pure ⟨body, span, rfl⟩
  · rintro _ ⟨body, span, rfl⟩
    exact Gives.pure ⟨body, span, rfl⟩

theorem gives_localLet (n start : Nat) :
    Gives (localLet n start x v) fun e => ∃ body span, e = .letIn x v body span := by
  cases n with
  | zero => exact Gives.outOfSteps
  | succ n =>
    refine Gives.after fun _ => Gives.after fun body => Gives.after fun span => ?_
    exact Gives.pure ⟨body, span, rfl⟩

theorem gives_afterBinding (n : Nat) (body : Expr) (span : Span) :
    Gives (afterBinding n 0 (⟨b.name, .nowhere⟩, b.function body span))
      fun stmt => ∀ span, b.Binds (stmt span) := by
  refine Gives.after fun more => ?_
  cases more with
  | false => exact Gives.pure fun span' => .define body span span'
  | true =>
    refine Gives.bind (gives_localLet n 0) ?_
    rintro _ ⟨e, span', rfl⟩
    exact Gives.pure fun span'' => .letIn body e span span' span''

theorem gives_ending (start : Nat) {stmt : Span → Stmt} (h : ∀ span, b.Binds (stmt span)) :
    Gives (ending start stmt) b.Binds := by
  refine Gives.after fun kind => ?_
  split
  · exact Gives.after fun _ => Gives.after fun span => Gives.pure (h span)
  · exact Gives.after fun span => Gives.pure (h span)

/-- A statement that begins with the binding gives the name to a function. -/
theorem binds_of_statement {rest : List TokenKind} {n : Nat} {stmt : Stmt} {t : Stream}
    (h : statement (n + 1) (.ofKinds (b.short ++ rest)) = .ok stmt t) : b.Binds stmt := by
  have hbinding := binding_short b rest n
  rw [statement_ofKinds] at h
  obtain ⟨f, u, hf, h⟩ := Gives.bind_eq_ok h
  rw [bareStatement_let (n + 1) rfl] at hf
  obtain ⟨p, u', hp, hf⟩ := Gives.bind_eq_ok hf
  rw [hbinding] at hp
  obtain ⟨body, span, rfl⟩ := gives_read n _ _ _ hp
  exact gives_ending 0 (gives_afterBinding (n + 1) body span _ _ _ hf) _ _ _ h

end Shape

/-- **A binding with parameters is the binding of a function.** Let two texts differ in the form of
one binding: one has `let f x y =` where the other has `let f = fun x y ->`. Whatever comes before
the binding and after it, the parser of statements reads the same from both texts up to positions,
and so does the parser of expressions, at each level: both succeed with the same result or fail for
the same cause, and they stop at the same token. If nothing comes before the binding, this is a
token after it, and a statement that is read gives the name to a function with the parameters, for
good or in an expression. -/
theorem function_binding_is_lambda (b : FunctionBinding) (before rest : List TokenKind)
    {s t : Stream} (hs : s.tokens.map Token.kind = before ++ (b.short ++ rest))
    (ht : t.tokens.map Token.kind = before ++ (b.long ++ rest)) {n m : Nat}
    (hn : Program.stepsFor s.tokens.length ≤ n) (hm : Program.stepsFor t.tokens.length ≤ m) :
    SameReading (Respelled b rest) (Stmt.move fun _ => 0) s t (statement n s) (statement m t) ∧
      (∀ level, SameReading (Respelled b rest) Expr.bare s t (expression n level s)
        (expression m level t)) ∧
      (before = [] →
        SameReading (fun ks ls => ls = ks ∧ ks <:+ rest) (Stmt.move fun _ => 0) s t
            (statement n s) (statement m t) ∧
          (∀ level, SameReading (fun ks ls => ls = ks ∧ ks <:+ rest) Expr.bare s t
            (expression n level s) (expression m level t)) ∧
          ∀ stmt u, statement n s = .ok stmt u → b.Binds (stmt.move fun _ => 0)) := by
  have hn' := (Program.le_stepsFor _).trans hn
  have hm' := (Program.le_stepsFor _).trans hm
  -- The steps of the reader are enough for all that is read here.
  have hprepared : ∀ {c}, c ≤ 6 →
      Prepared b rest c n m (before ++ (b.short ++ rest)) (before ++ (b.long ++ rest)) :=
    fun hc => .of_kinds hs ht (by omega) (by omega)
  have hstmt := statement_bares hn'
  have hstmt' := statement_bares hm'
  have hexpr := fun level => expression_bares level (Nat.le_of_add_right_le (k := 2) hn')
  have hexpr' := fun level => expression_bares level (Nat.le_of_add_right_le (k := 2) hm')
  rw [hs] at hstmt hexpr
  rw [ht] at hstmt' hexpr'
  refine ⟨.of_agree hstmt hstmt' (Both.statement (hprepared le_rfl)) fun _ _ h _ => h, ?_, ?_⟩
  · intro level
    exact .of_agree (hexpr level) (hexpr' level)
      ((agreeAt b rest n m).expression level (hprepared (by omega))) fun _ _ h _ => h
  · rintro rfl
    rw [List.nil_append] at hstmt hstmt' hexpr hexpr'
    refine ⟨?_, fun level => ?_, fun stmt u hok => ?_⟩
    · -- What is left is no longer than what follows the binding, and there the texts are the same.
      exact .of_agree hstmt hstmt' (statement_head (hprepared le_rfl))
        fun _ _ h hlen => h.eq_of_length_le hlen
    · exact .of_agree (hexpr level) (hexpr' level) (expression_head level (hprepared (by omega)))
        fun _ _ h hlen => h.eq_of_length_le hlen
    · obtain ⟨n, rfl⟩ : ∃ k, n = k + 1 := ⟨n - 1, by omega⟩
      rw [hok] at hstmt
      generalize hrun : statement (n + 1) (.ofKinds (b.short ++ rest)) = r at hstmt
      cases hstmt with
      | ok hu ha =>
        rw [← ha]
        exact binds_of_statement hrun

/-- A local binding whose body has a semicolon and an operator is read as a statement; a binding
inside a choice is refused for an operator without its operand. -/
theorem function_binding_is_lambda_read_and_refused :
    let b : FunctionBinding := ⟨"f", "x", ["y"]⟩
    let s := Stream.ofTokens (lex "let f x y = x; y + 1 in f 2 3;;") 31
    let t := Stream.ofTokens (lex "let f = fun x y -> x; y + 1 in f 2 3;;") 38
    let s' := Stream.ofTokens (lex "if let f x y = x * in f 1 2 then 1 else 2;;") 43
    let t' := Stream.ofTokens (lex "if let f = fun x y -> x * in f 1 2 then 1 else 2;;") 50
    let rest := (s.tokens.drop 5).map Token.kind
    let rest' := (s'.tokens.drop 6).map Token.kind
    (match statement 144 s with | .ok _ u => u.tokens.isEmpty | .error _ _ => false) = true ∧
      SameReading (fun ks ls => ls = ks ∧ ks <:+ rest) (Stmt.move fun _ => 0) s t
        (statement 144 s) (statement 160 t) ∧
      (match statement 144 s' with | .ok _ _ => "" | .error e _ => e.message) =
        "expected expression, found `in`" ∧
      SameReading (Respelled b rest') (Stmt.move fun _ => 0) s' t' (statement 144 s')
        (statement 160 t') := by
  intro b s t s' t' rest rest'
  have hread : (match statement 144 s with | .ok _ u => u.tokens.isEmpty | .error _ _ => false) =
      true := by decide +kernel
  have hrefused : (match statement 144 s' with | .ok _ _ => "" | .error e _ => e.message) =
      "expected expression, found `in`" := by decide +kernel
  have hs : s.tokens.map Token.kind = [] ++ (b.short ++ rest) := by decide +kernel
  have ht : t.tokens.map Token.kind = [] ++ (b.long ++ rest) := by decide +kernel
  have hs' : s'.tokens.map Token.kind = [.keyword .kwIf] ++ (b.short ++ rest') := by decide +kernel
  have ht' : t'.tokens.map Token.kind = [.keyword .kwIf] ++ (b.long ++ rest') := by decide +kernel
  have hn : Program.stepsFor s.tokens.length ≤ 144 := by decide +kernel
  have hm : Program.stepsFor t.tokens.length ≤ 160 := by decide +kernel
  have hn' : Program.stepsFor s'.tokens.length ≤ 144 := by decide +kernel
  have hm' : Program.stepsFor t'.tokens.length ≤ 160 := by decide +kernel
  clear_value s t s' t' rest rest'
  refine ⟨hread, ?_, hrefused, ?_⟩
  · exact ((function_binding_is_lambda b [] rest hs ht hn hm).2.2 rfl).1
  · exact (function_binding_is_lambda b [.keyword .kwIf] rest' hs' ht' hn' hm').1

end Parse

end ContractML

import ContractML.Parser.Program
import ContractML.Proofs.Relocation

/-!
# Streams inside longer ones

A stream is compared with the same tokens at a place of a longer stream: the positions are others,
and more tokens may follow. As long as there is a terminator before what follows, a parser that
takes no terminator cannot tell the two apart.

## Main definitions

* `Site`, `Stream.inside` — a place in a longer stream, and a stream at that place.
* `Site.Fits` — nothing follows the stream, or a terminator comes before what follows.
* `Stream.Leads` — a stream after some tokens that are not terminators.
* `Parse.Follows` — a parser does on the longer stream what it does on the shorter one.

## Main results

* `Stream.Leads.skipStatement_eq` — such tokens do not change what comes after the next terminator.
* `Parse.Follows.bind`, `Parse.Follows.atSymbol`, `Parse.Follows.advance`,
  `Parse.Follows.unexpected` — one rule for each step of a parser.
-/

namespace ContractML

/-- Whether a token ends a statement. -/
def TokenKind.isTerminator : TokenKind → Bool
  | .symbol .semiSemi => true
  | _ => false

theorem TokenKind.isTerminator_eq_true {k : TokenKind} (h : k.isTerminator = true) :
    k = .symbol .semiSemi := by
  unfold isTerminator at h
  split at h
  · rfl
  · cases h

/-- An operator is no terminator. -/
theorem Operator.isTerminator_of_ofKind? {k : TokenKind} {o : Operator} (h : ofKind? k = some o) :
    k.isTerminator = false := by
  cases hk : k.isTerminator with
  | false => rfl
  | true =>
    rw [TokenKind.isTerminator_eq_true hk] at h
    cases h

/-! ### Streams inside longer ones -/

/-- A place in a longer stream: where its positions are, what tokens follow, and where the whole
text ends. -/
structure Site where
  move : Nat → Nat
  mono : Monotone move
  rest : List Token
  eof : Nat

/-- The stream at a place of a longer one. -/
def Stream.inside (S : Site) (s : Stream) : Stream :=
  ⟨s.tokens.map (Token.move S.move) ++ S.rest, S.move s.lastStop, S.eof⟩

/-- Either nothing follows the stream, or it has a terminator before what follows. -/
def Site.Fits (S : Site) (s : Stream) : Prop :=
  (S.rest = [] ∧ S.eof = S.move s.eof) ∨ ∃ t ∈ s.tokens, t.kind.isTerminator = true

namespace Stream

variable {S : Site} {s t u : Stream}

theorem kind?_inside (h : S.Fits s) : (s.inside S).kind? = s.kind? := by
  obtain ⟨tokens, lastStop, eof⟩ := s
  cases tokens with
  | nil =>
    rcases h with ⟨hrest, -⟩ | ⟨t, ht, -⟩
    · simp [inside, kind?, hrest]
    · simp at ht
  | cons t ts => rfl

theorem span_inside (h : S.Fits s) : (s.inside S).span = s.span.move S.move := by
  obtain ⟨tokens, lastStop, eof⟩ := s
  cases tokens with
  | nil =>
    rcases h with ⟨hrest, heof⟩ | ⟨t, ht, -⟩
    · simp [inside, span, hrest, heof, Span.move]
    · simp at ht
  | cons t ts => rfl

theorem advance_inside {k : TokenKind} (hk : s.kind? = some k) :
    (s.inside S).advance = s.advance.inside S := by
  obtain ⟨tokens, lastStop, eof⟩ := s
  cases tokens with
  | nil => cases hk
  | cons t ts => rfl

/-- The second stream is the first one after some tokens, none of which is a terminator. -/
inductive Leads : Stream → Stream → Prop
  | refl (s : Stream) : Leads s s
  | step {t : Token} {ts : List Token} {lastStop eof : Nat} {u : Stream}
      (ht : t.kind.isTerminator = false) :
      Leads ⟨ts, t.span.stop, eof⟩ u → Leads ⟨t :: ts, lastStop, eof⟩ u

namespace Leads

theorem trans (h : s.Leads t) (h' : t.Leads u) : s.Leads u := by
  induction h with
  | refl s => exact h'
  | step ht _ ih => exact .step ht (ih h')

theorem length_le (h : s.Leads t) : t.tokens.length ≤ s.tokens.length := by
  induction h with
  | refl s => exact le_rfl
  | step _ _ ih => exact ih.trans (Nat.le_succ _)

theorem eof_eq (h : s.Leads t) : t.eof = s.eof := by
  induction h with
  | refl s => rfl
  | step _ _ ih => exact ih

theorem mem (h : s.Leads t) {x : Token} (hx : x ∈ t.tokens) : x ∈ s.tokens := by
  induction h with
  | refl s => exact hx
  | step _ _ ih => exact List.mem_cons_of_mem _ (ih hx)

/-- A terminator is not passed over. -/
theorem mem_of_isTerminator (h : s.Leads t) {x : Token} (hx : x ∈ s.tokens)
    (hk : x.kind.isTerminator = true) : x ∈ t.tokens := by
  induction h with
  | refl s => exact hx
  | step ht _ ih =>
    rcases List.mem_cons.mp hx with rfl | hx
    · rw [ht] at hk
      cases hk
    · exact ih hx

theorem fits (h : s.Leads t) (hs : S.Fits s) : S.Fits t := by
  rcases hs with ⟨hrest, heof⟩ | ⟨x, hx, hk⟩
  · exact .inl ⟨hrest, by rw [heof, h.eof_eq]⟩
  · exact .inr ⟨x, h.mem_of_isTerminator hx hk, hk⟩

theorem advance {k : TokenKind} (hk : s.kind? = some k) (ht : k.isTerminator = false) :
    s.Leads s.advance := by
  obtain ⟨tokens, lastStop, eof⟩ := s
  cases tokens with
  | nil => cases hk
  | cons t ts =>
    cases hk
    exact .step ht (.refl _)

end Leads

theorem length_advance {k : TokenKind} (hk : s.kind? = some k) :
    s.advance.tokens.length + 1 = s.tokens.length := by
  obtain ⟨tokens, lastStop, eof⟩ := s
  cases tokens with
  | nil => cases hk
  | cons t ts => rfl

/-! ### After the next terminator -/

/-- Walking over tokens reads nothing of the first stream but where the text ends. -/
theorem skipStatement_go_congr (h : s.eof = t.eof) (ts : List Token) (lastStop : Nat) :
    skipStatement.go s ts lastStop = skipStatement.go t ts lastStop := by
  fun_induction skipStatement.go s ts lastStop with
  | case1 lastStop => rw [skipStatement.go, h]
  | case2 span ts _ => rw [skipStatement.go, h]
  | case3 x ts _ hx ih =>
    rw [ih, skipStatement.go]
    exact hx

theorem skipStatement_cons {t : Token} {ts : List Token} {lastStop eof : Nat}
    (ht : t.kind.isTerminator = false) :
    (Stream.mk (t :: ts) lastStop eof).skipStatement =
      (Stream.mk ts t.span.stop eof).skipStatement := by
  rw [skipStatement, skipStatement, skipStatement.go]
  · refine skipStatement_go_congr ?_ ts t.span.stop
    rfl
  · rintro span rfl
    cases ht

theorem skipStatement_terminator {t : Token} {ts : List Token} {lastStop eof : Nat}
    (ht : t.kind.isTerminator = true) :
    (Stream.mk (t :: ts) lastStop eof).skipStatement = ⟨ts, t.span.stop, eof⟩ := by
  obtain ⟨kind, span⟩ := t
  obtain rfl := TokenKind.isTerminator_eq_true ht
  rfl

theorem skipStatement_nil {lastStop eof : Nat} :
    (Stream.mk [] lastStop eof).skipStatement = ⟨[], lastStop, eof⟩ := rfl

theorem skipStatement_of_none (s : Stream) (h : s.kind? = none) : s.skipStatement = s := by
  obtain ⟨tokens, lastStop, eof⟩ := s
  cases tokens with
  | nil => rfl
  | cons t ts => cases h

theorem skipStatement_of_terminator (s : Stream) (h : s.kind? = some (.symbol .semiSemi)) :
    s.skipStatement = s.advance := by
  obtain ⟨tokens, lastStop, eof⟩ := s
  cases tokens with
  | nil => cases h
  | cons t ts =>
    obtain ⟨kind, span⟩ := t
    cases h
    rfl

/-- Tokens other than terminators make no difference to what comes after the next terminator. -/
theorem Leads.skipStatement_eq (h : s.Leads t) : t.skipStatement = s.skipStatement := by
  induction h with
  | refl s => rfl
  | step ht _ ih => rw [ih, skipStatement_cons ht]

theorem skipStatement_inside (h : S.Fits s) :
    (s.inside S).skipStatement = s.skipStatement.inside S := by
  obtain ⟨tokens, lastStop, eof⟩ := s
  induction tokens generalizing lastStop with
  | nil =>
    rcases h with ⟨hrest, -⟩ | ⟨t, ht, -⟩
    · simp [inside, hrest, skipStatement_nil]
    · simp at ht
  | cons t ts ih =>
    cases ht : t.kind.isTerminator with
    | true =>
      rw [skipStatement_terminator ht]
      exact skipStatement_terminator (t := t.move S.move) ht
    | false =>
      -- A token that is skipped is not the terminator that keeps the stream apart.
      have hts : S.Fits ⟨ts, t.span.stop, eof⟩ := (Leads.step ht (.refl _)).fits h
      rw [skipStatement_cons ht, ← ih t.span.stop hts]
      exact skipStatement_cons (t := t.move S.move) ht

/-- There is less to read after the next terminator than before. -/
theorem length_skipStatement_lt (t : Token) (ts : List Token) (lastStop eof : Nat) :
    (Stream.mk (t :: ts) lastStop eof).skipStatement.tokens.length < (t :: ts).length := by
  induction ts generalizing t lastStop with
  | nil =>
    cases ht : t.kind.isTerminator with
    | true => simp [skipStatement_terminator ht]
    | false => simp [skipStatement_cons ht, skipStatement_nil]
  | cons t' ts ih =>
    cases ht : t.kind.isTerminator with
    | true => simp [skipStatement_terminator ht]
    | false =>
      rw [skipStatement_cons ht]
      exact (ih t' t.span.stop).trans (by simp)

end Stream

/-! ### Two runs of a parser -/

namespace Parse

variable {α β γ δ : Type} {S : Site} {s t : Stream}

/-- What `x` does on the stream, `y` does on the stream inside a longer one: both succeed with
results that `Q` relates, or both fail with one error. Both take the same tokens, none of which is a
terminator. An error is noticed at the token at hand, and never for want of steps. -/
def Follows (S : Site) (s : Stream) (Q : α → β → Stream → Prop) (x : Parse α) (y : Parse β) :
    Prop :=
  match x s, y (s.inside S) with
  | .ok a t, .ok b u => u = t.inside S ∧ s.Leads t ∧ Q a b t
  | .error e t, .error e' u =>
    u = t.inside S ∧ s.Leads t ∧ e' = e.move S.move ∧ e.span = t.span ∧ e.cause ≠ .outOfSteps
  | _, _ => False

namespace Follows

variable {Q : α → β → Stream → Prop} {R : γ → δ → Stream → Prop}

protected theorem pure {a : α} {b : β} (h : Q a b s) : Follows S s Q (pure a) (pure b) :=
  ⟨rfl, .refl s, h⟩

theorem bind_apply (x : Parse α) (f : α → Parse γ) (s : Stream) :
    (x >>= f) s = match x s with
      | .ok a t => f a t
      | .error e t => .error e t := by
  change EStateM.bind x f s = _
  rw [EStateM.bind.eq_def]
  cases x s <;> rfl

protected theorem bind {x : Parse α} {y : Parse β} {f : α → Parse γ} {g : β → Parse δ}
    (hx : Follows S s Q x y)
    (hf : ∀ a b t, s.Leads t → Q a b t → Follows S t R (f a) (g b)) :
    Follows S s R (x >>= f) (y >>= g) := by
  unfold Follows at hx ⊢
  rw [bind_apply, bind_apply]
  cases hxs : x s with
  | error e t =>
    cases hys : y (s.inside S) with
    | error e' u => rwa [hxs, hys] at hx
    | ok b u => rw [hxs, hys] at hx; exact hx.elim
  | ok a t =>
    cases hys : y (s.inside S) with
    | error e' u => rw [hxs, hys] at hx; exact hx.elim
    | ok b u =>
      rw [hxs, hys] at hx
      obtain ⟨rfl, hst, hQ⟩ := hx
      have hrest := hf a b t hst hQ
      unfold Follows at hrest
      dsimp only
      -- The second parser starts where the first one stopped.
      revert hrest
      cases f a t with
      | ok c t' =>
        cases g b (t.inside S) with
        | ok d u' => exact fun h => ⟨h.1, hst.trans h.2.1, h.2.2⟩
        | error e u' => exact fun h => h
      | error e t' =>
        cases g b (t.inside S) with
        | ok d u' => exact fun h => h
        | error e' u' => exact fun h => ⟨h.1, hst.trans h.2.1, h.2.2⟩

theorem mono {x : Parse α} {y : Parse β} {Q' : α → β → Stream → Prop} (h : Follows S s Q x y)
    (hQ : ∀ a b t, s.Leads t → Q a b t → Q' a b t) : Follows S s Q' x y := by
  unfold Follows at h ⊢
  split at h
  · exact ⟨h.1, h.2.1, hQ _ _ _ h.2.1 h.2.2⟩
  · exact h
  · exact h.elim

/-! Steps that only look at the stream -/

protected theorem get {f : Stream → Parse γ} {g : Stream → Parse δ}
    (h : Follows S s R (f s) (g (s.inside S))) : Follows S s R (get >>= f) (get >>= g) := h

protected theorem kind? (hs : S.Fits s) {f : Option TokenKind → Parse γ}
    {g : Option TokenKind → Parse δ} (h : Follows S s R (f s.kind?) (g s.kind?)) :
    Follows S s R (kind? >>= f) (kind? >>= g) := by
  change Follows S s R (f s.kind?) (g (s.inside S).kind?)
  rwa [s.kind?_inside hs]

protected theorem start (hs : S.Fits s) {f : Nat → Parse γ} {g : Nat → Parse δ}
    (h : Follows S s R (f s.span.start) (g (S.move s.span.start))) :
    Follows S s R (start >>= f) (start >>= g) := by
  have hstart : (s.inside S).span.start = S.move s.span.start := by
    rw [s.span_inside hs, Span.start_move]
  rw [← hstart] at h
  exact h

protected theorem spanFrom {start start' : Nat} {f : Span → Parse γ} {g : Span → Parse δ}
    (h : Follows S s R (f ⟨start, s.lastStop⟩) (g ⟨start', S.move s.lastStop⟩)) :
    Follows S s R (spanFrom start >>= f) (spanFrom start' >>= g) := h

theorem kind?_bind_apply (f : Option TokenKind → Parse γ) (s : Stream) :
    (Parse.kind? >>= f) s = f s.kind? s := rfl

theorem atSymbol_apply (k : Symbol) (s : Stream) :
    ∃ b, (b = true ↔ s.kind? = some (.symbol k)) ∧
      ∀ t : Stream, t.kind? = s.kind? → Parse.atSymbol k t = .ok b t := by
  cases hk : s.kind? with
  | none => exact ⟨false, by simp, fun t ht => by rw [Parse.atSymbol, kind?_bind_apply, ht]; rfl⟩
  | some kind =>
    cases kind with
    | symbol l =>
      refine ⟨decide (k = l), by simp [eq_comm], fun t ht => ?_⟩
      rw [Parse.atSymbol, kind?_bind_apply, ht]
      rfl
    | _ => exact ⟨false, by simp, fun t ht => by rw [Parse.atSymbol, kind?_bind_apply, ht]; rfl⟩

theorem atKeyword_apply (k : Keyword) (s : Stream) :
    ∃ b, (b = true ↔ s.kind? = some (.keyword k)) ∧
      ∀ t : Stream, t.kind? = s.kind? → Parse.atKeyword k t = .ok b t := by
  cases hk : s.kind? with
  | none => exact ⟨false, by simp, fun t ht => by rw [Parse.atKeyword, kind?_bind_apply, ht]; rfl⟩
  | some kind =>
    cases kind with
    | keyword l =>
      refine ⟨decide (k = l), by simp [eq_comm], fun t ht => ?_⟩
      rw [Parse.atKeyword, kind?_bind_apply, ht]
      rfl
    | _ => exact ⟨false, by simp, fun t ht => by rw [Parse.atKeyword, kind?_bind_apply, ht]; rfl⟩

/-- A test of the token at hand has the same answer on both sides. -/
theorem test {p : Prop} {x : Parse Bool}
    (hx : ∃ b, (b = true ↔ p) ∧ ∀ t : Stream, t.kind? = s.kind? → x t = .ok b t)
    (hs : S.Fits s) {f : Bool → Parse γ} {g : Bool → Parse δ}
    (hyes : p → Follows S s R (f true) (g true))
    (hno : ¬p → Follows S s R (f false) (g false)) : Follows S s R (x >>= f) (x >>= g) := by
  obtain ⟨b, hb, hrun⟩ := hx
  -- The answer depends on the kind at hand alone, which is the same in both.
  have hboth : Follows S s R (f b) (g b) := by
    cases b with
    | true => exact hyes (hb.mp rfl)
    | false => exact hno fun hp => Bool.false_ne_true (hb.mpr hp)
  unfold Follows
  rw [bind_apply, bind_apply, hrun s rfl, hrun _ (s.kind?_inside hs)]
  exact hboth

protected theorem atSymbol (hs : S.Fits s) (k : Symbol) {f : Bool → Parse γ} {g : Bool → Parse δ}
    (hyes : s.kind? = some (.symbol k) → Follows S s R (f true) (g true))
    (hno : s.kind? ≠ some (.symbol k) → Follows S s R (f false) (g false)) :
    Follows S s R (atSymbol k >>= f) (atSymbol k >>= g) :=
  test (atSymbol_apply k s) hs hyes hno

protected theorem atKeyword (hs : S.Fits s) (k : Keyword) {f : Bool → Parse γ}
    {g : Bool → Parse δ} (hyes : s.kind? = some (.keyword k) → Follows S s R (f true) (g true))
    (hno : s.kind? ≠ some (.keyword k) → Follows S s R (f false) (g false)) :
    Follows S s R (atKeyword k >>= f) (atKeyword k >>= g) :=
  test (atKeyword_apply k s) hs hyes hno

/-! Steps that take tokens or fail -/

/-- A step before the rest of a parser leaves it the stream to which it leads. -/
theorem of_leads {x : Parse γ} {y : Parse δ} (hst : s.Leads t) (h : Follows S t R x y)
    {x' : Parse γ} {y' : Parse δ} (hx : x' s = x t) (hy : y' (s.inside S) = y (t.inside S)) :
    Follows S s R x' y' := by
  unfold Follows at h ⊢
  rw [hx, hy]
  split at h
  · exact ⟨h.1, hst.trans h.2.1, h.2.2⟩
  · exact ⟨h.1, hst.trans h.2.1, h.2.2⟩
  · exact h.elim

protected theorem advance {k : TokenKind} (hk : s.kind? = some k) (ht : k.isTerminator = false)
    {f : Unit → Parse γ} {g : Unit → Parse δ} (h : Follows S s.advance R (f ()) (g ())) :
    Follows S s R (advance >>= f) (advance >>= g) := by
  refine of_leads (.advance hk ht) h rfl ?_
  change g () (s.inside S).advance = _
  rw [Stream.advance_inside hk]

protected theorem unexpected (hs : S.Fits s) (wanted : Expectation) :
    Follows S s R (unexpected wanted) (unexpected wanted) := by
  refine Follows.get ?_
  rw [s.kind?_inside hs, s.span_inside hs]
  cases s.kind? with
  | none => exact ⟨rfl, .refl s, rfl, rfl, by simp⟩
  | some k =>
    cases k <;> exact ⟨rfl, .refl s, rfl, rfl, by simp⟩

/-- Results at another place, after at least one token. -/
def Moved (S : Site) (s : Stream) (move : (Nat → Nat) → α → α) : α → α → Stream → Prop :=
  fun a b t => b = move S.move a ∧ t.tokens.length < s.tokens.length

/-- Taking a token that is no terminator. -/
theorem advance_taken {k : TokenKind} (hk : s.kind? = some k) (ht : k.isTerminator = false) :
    Follows S s (fun _ _ t => t.tokens.length < s.tokens.length) advance advance := by
  have hlen := Stream.length_advance hk
  exact Follows.advance hk ht (Follows.pure (a := ()) (b := ()) (by omega))

protected theorem expect (hs : S.Fits s) {k : Symbol} (hk : k ≠ .semiSemi) :
    Follows S s (fun _ _ t => t.tokens.length < s.tokens.length) (expect k) (expect k) := by
  refine Follows.atSymbol hs k (fun h => ?_) fun _ => Follows.unexpected hs _
  have hterm : (TokenKind.symbol k).isTerminator = false := by
    cases k <;> first | rfl | exact absurd rfl hk
  exact advance_taken h hterm

protected theorem expectKeyword (hs : S.Fits s) (k : Keyword) :
    Follows S s (fun _ _ t => t.tokens.length < s.tokens.length) (expectKeyword k)
      (expectKeyword k) := by
  refine Follows.atKeyword hs k (fun h => ?_) fun _ => Follows.unexpected hs _
  exact advance_taken h rfl

protected theorem identifier (hs : S.Fits s) :
    Follows S s (Moved S s Ident.move) identifier identifier := by
  refine Follows.get ?_
  rw [s.kind?_inside hs, s.span_inside hs]
  cases hk : s.kind? with
  | none => exact Follows.unexpected hs .identifier
  | some k =>
    cases k with
    | ident name =>
      have hlen := Stream.length_advance hk
      exact Follows.advance hk rfl (Follows.pure ⟨rfl, by omega⟩)
    | _ => exact Follows.unexpected hs .identifier

theorem takeIdentifiers_eq_of_kind? (eof : Nat) (acc : List Ident) {ts : List Token}
    {lastStop : Nat} (h : ∀ name, (Stream.mk ts lastStop eof).kind? ≠ some (.ident name)) :
    takeIdentifiers eof acc ts lastStop = (acc.reverse, ⟨ts, lastStop, eof⟩) := by
  rw [takeIdentifiers]
  rintro name span ts' rfl
  exact h name rfl

theorem takeIdentifiers_inside (hs : S.Fits s) (acc : List Ident) :
    s.Leads (takeIdentifiers s.eof acc s.tokens s.lastStop).2 ∧
      takeIdentifiers S.eof (acc.map (Ident.move S.move)) (s.inside S).tokens
          (s.inside S).lastStop =
        ((takeIdentifiers s.eof acc s.tokens s.lastStop).1.map (Ident.move S.move),
          (takeIdentifiers s.eof acc s.tokens s.lastStop).2.inside S) := by
  obtain ⟨ts, lastStop, eof⟩ := s
  dsimp only
  fun_induction takeIdentifiers eof acc ts lastStop with
  | case1 acc name span ts lastStop ih =>
    have hstep : (Stream.mk (⟨.ident name, span⟩ :: ts) lastStop eof).Leads ⟨ts, span.stop, eof⟩ :=
      .step rfl (.refl _)
    obtain ⟨hleads, hrun⟩ := ih (hstep.fits hs)
    exact ⟨hstep.trans hleads, hrun⟩
  | case2 acc ts lastStop hts =>
    -- What stops the first run is that no identifier is at hand, and so it is in the longer stream.
    have hkind : ∀ name, (Stream.mk ts lastStop eof).kind? ≠ some (.ident name) := by
      intro name hname
      cases ts with
      | nil => cases hname
      | cons t ts =>
        obtain ⟨kind, span⟩ := t
        cases hname
        exact hts name span ts rfl
    refine ⟨.refl _, ?_⟩
    rw [takeIdentifiers_eq_of_kind?, List.map_reverse]
    · rfl
    · intro name
      exact (Stream.kind?_inside hs).symm ▸ hkind name

protected theorem identifiers (hs : S.Fits s) :
    Follows S s (fun xs ys _ => ys = xs.map (Ident.move S.move)) identifiers identifiers := by
  obtain ⟨hleads, hrun⟩ := takeIdentifiers_inside hs []
  have hx : identifiers s = .ok (takeIdentifiers s.eof [] s.tokens s.lastStop).1
      (takeIdentifiers s.eof [] s.tokens s.lastStop).2 := rfl
  have hy : identifiers (s.inside S) =
      .ok (takeIdentifiers S.eof [] (s.inside S).tokens (s.inside S).lastStop).1
        (takeIdentifiers S.eof [] (s.inside S).tokens (s.inside S).lastStop).2 := rfl
  rw [List.map_nil] at hrun
  unfold Follows
  rw [hx, hy, hrun]
  exact ⟨rfl, hleads, rfl⟩

end Follows

end Parse

end ContractML

import Mathlib.Logic.Embedding.Basic
import ContractML.Proofs.RelabelledRuns

/-!
# The layout of a text does not matter

Two texts with the same kinds of tokens differ in their layout only: in spaces, line breaks and
comments. The parser reads the same statements from both, and notices the same syntax errors, up to
positions. Run on two sessions that are alike, the texts have results that are alike, and leave
sessions that are alike.

Sessions are alike if they become one and the same when all positions are forgotten and the
identities of closures are renamed. What counts about identities is which closures are the same, so
the two sessions may number their closures differently.

## Main definitions

* `Program.entriesOf` — what is read from the kinds of tokens alone.
* `Relabelling.bare` — forgetting positions.
* `Session.Alike` — sessions that differ in positions and in how closures are numbered.

## Main results

* `Program.entries_bare` — without positions, what is read depends on the kinds of tokens alone.
* `Session.Relabels.run` — a run of a session without positions.
* `Session.run_layout_invariant` — **layout does not matter**.
-/

namespace ContractML

deriving instance DecidableEq for TokenKind

/-! ### Reading without positions -/

theorem Stream.eof_skipStatement (s : Stream) : s.skipStatement.eof = s.eof := by
  unfold skipStatement
  fun_induction skipStatement.go s s.tokens s.lastStop with
  | case1 => rfl
  | case2 => rfl
  | case3 t ts lastStop hne ih => exact ih

/-- The stream of tokens of which only the kinds are known. -/
def Stream.ofKinds (kinds : List TokenKind) : Stream := ⟨kinds.map (⟨·, .nowhere⟩), 0, 0⟩

/-- The site at which all positions are forgotten. -/
def Site.bare : Site := ⟨fun _ => 0, monotone_const, [], 0⟩

theorem Stream.inside_bare (s : Stream) : s.inside .bare = .ofKinds (s.tokens.map Token.kind) := by
  simp [Stream.inside, Stream.ofKinds, Site.bare, Token.move, Span.move, Span.nowhere]

namespace Program

/-- Streams are read alike at two places if nothing follows them, with steps and fuel enough. -/
theorem entriesFrom_alone {S : Site} (hrest : S.rest = []) {n m fuel fuel' : Nat} {s : Stream}
    (heof : S.eof = S.move s.eof) (hn : 8 * s.tokens.length + 6 ≤ n)
    (hm : 8 * s.tokens.length + 6 ≤ m) (hfuel : s.tokens.length ≤ fuel)
    (hfuel' : s.tokens.length ≤ fuel') :
    entriesFrom m fuel' (s.inside S) = (entriesFrom n fuel s).map (Entry.move S.move) := by
  induction fuel generalizing s fuel' with
  | zero =>
    have hnil : s.tokens = [] := List.length_eq_zero_iff.mp (Nat.le_zero.mp hfuel)
    -- Nothing follows the stream, so without tokens of its own it is empty at its place too.
    have hinside : (s.inside S).tokens = [] := by simp [Stream.inside, hnil, hrest]
    rw [entriesFrom_of_isEmpty _ _ hinside]
    rfl
  | succ fuel ih =>
    obtain ⟨tokens, lastStop, eof⟩ := s
    cases tokens with
    | nil =>
      have hinside : ((Stream.mk [] lastStop eof).inside S).tokens = [] := by
        simp [Stream.inside, hrest]
      rw [entriesFrom_of_isEmpty _ _ hinside, entriesFrom_of_isEmpty _ _ rfl]
      rfl
    | cons t ts =>
      have hlt := Stream.length_skipStatement_lt t ts lastStop eof
      have hskip := Stream.eof_skipStatement (Stream.mk (t :: ts) lastStop eof)
      dsimp only at hn hm hfuel hfuel' heof hskip
      have hready : Parse.Ready S 6 n m ⟨t :: ts, lastStop, eof⟩ :=
        ⟨.inl ⟨hrest, heof⟩, Nat.le_min.mpr ⟨hn, hm⟩⟩
      cases fuel' with
      | zero => exact absurd hfuel' (Nat.not_succ_le_zero _)
      | succ fuel' =>
        rw [entriesFrom_inside hready (List.cons_ne_nil t ts), entriesFrom]
        have hrest' :
            entriesFrom m fuel' ((Stream.mk (t :: ts) lastStop eof).skipStatement.inside S) =
              (entriesFrom n fuel (Stream.mk (t :: ts) lastStop eof).skipStatement).map
                (Entry.move S.move) :=
          -- What is left after a statement has fewer tokens and the same end.
          ih (by rw [hskip]; exact heof) (by omega) (by omega) (by omega) (by omega)
        rw [hrest']
        rfl

/-- What is read from tokens of which only the kinds are known. -/
def entriesOf (kinds : List TokenKind) : List Entry :=
  entriesFrom (stepsFor kinds.length) kinds.length (.ofKinds kinds)

/-- Without positions, what is read depends on the kinds of tokens alone. -/
theorem entries_bare (source : String) :
    (entries source).map (Entry.move fun _ => 0) = entriesOf ((lex source).map Token.kind) := by
  have hsteps := le_stepsFor (lex source).length
  have halone := entriesFrom_alone (S := .bare) rfl
    (s := .ofTokens (lex source) source.utf8ByteSize) rfl hsteps hsteps (Nat.le_refl _)
    (Nat.le_refl _)
  rw [Stream.inside_bare] at halone
  rw [entriesOf, List.length_map]
  exact halone.symm

end Program

/-! ### Sessions that are alike -/

/-- All positions are forgotten, and the identities are renamed. -/
def Relabelling.bare (π : Nat ↪ Nat) : Relabelling := ⟨fun _ => 0, π, π.injective, .frames⟩

namespace Session

/-- The sessions become the same when positions are forgotten and the identities of the first one
are renamed by `π`, those of the second one by `π'`. -/
def Alike (π π' : Nat ↪ Nat) (s t : Session) : Prop :=
  ∃ u, s.Relabels (.bare π) u ∧ t.Relabels (.bare π') u

/-- A run of a session without positions takes the entries without positions. -/
theorem Relabels.run {π : Nat ↪ Nat} {s u : Session} (h : s.Relabels (.bare π) u)
    (source : String) :
    (s.run source).results.map (StatementResult.relabel (.bare π)) =
        (u.runEntries (Program.entriesOf ((lex source).map Token.kind))).1 ∧
      (s.run source).Relabels (.bare π)
        (u.runEntries (Program.entriesOf ((lex source).map Token.kind))).2 := by
  obtain ⟨hresults, hsession⟩ := h.runEntries (Program.entries source)
  have hentries := Program.entries_bare source
  change (Program.entries source).map (Entry.move (Relabelling.bare π).place) = _ at hentries
  rw [hentries] at hresults hsession
  rw [results_run, hresults, run_eq]
  exact ⟨rfl, hsession.logging _⟩

/-- A session is like itself. -/
theorem Alike.refl (s : Session) : s.Alike (.refl Nat) (.refl Nat) s :=
  ⟨s.relabel (.bare (.refl Nat)) s.workspace.counters.identity, relabels_relabel rfl fun _ => rfl,
    relabels_relabel rfl fun _ => rfl⟩

/-- **Layout does not matter.** Let two texts have the same kinds of tokens, with the same payloads,
and let two sessions be alike. Then the first text run on the first session and the second text run
on the second one have the same results, failures and outcomes up to positions and the numbering of
closures, with the same messages, and leave sessions that are alike in the same way. -/
theorem run_layout_invariant {π π' : Nat ↪ Nat} {s t : Session} (h : s.Alike π π' t) {a b : String}
    (hkinds : (lex a).map Token.kind = (lex b).map Token.kind) :
    (s.run a).results.map (StatementResult.relabel (.bare π)) =
        (t.run b).results.map (StatementResult.relabel (.bare π')) ∧
      (s.run a).failures.map (Failure.move fun _ => 0) =
        (t.run b).failures.map (Failure.move fun _ => 0) ∧
      ((s.run a).failures.map fun e => (e.kind, e.message)) =
        ((t.run b).failures.map fun e => (e.kind, e.message)) ∧
      (s.run a).outcome.relabel (.bare π) = (t.run b).outcome.relabel (.bare π') ∧
      (s.run a).Alike π π' (t.run b) := by
  obtain ⟨u, hs, ht⟩ := h
  obtain ⟨hresults, hsession⟩ := hs.run a
  obtain ⟨hresults', hsession'⟩ := ht.run b
  -- With the same kinds of tokens both runs take the same entries on the session without positions.
  rw [hkinds] at hresults hsession
  have hsame := hresults.trans hresults'.symm
  have hfailures := congrArg StatementResult.failures hsame
  rw [StatementResult.failures_relabel, StatementResult.failures_relabel, ← failures_run,
    ← failures_run] at hfailures
  refine ⟨hsame, hfailures, ?_, ?_, ⟨_, hsession, hsession'⟩⟩
  · have hreports := congrArg (List.map fun e : Failure => (e.kind, e.message)) hfailures
    simpa only [List.map_map, Function.comp_def, Failure.kind_move,
      Failure.message_move] using hreports
  · rw [outcome_run, outcome_run, ← RunLog.outcome_relabel, ← RunLog.outcome_relabel, hsame]

/-- A text with a contract, a breach of it and a closure, in two layouts. The breach stands at
different places. -/
theorem run_layout_invariant_two_layouts :
    let a := "contract n = positive;;let n=0;;let f x=x;;"
    let b := "contract n = positive;; (* low *)\nlet n = 0;;\nlet f x = x;;"
    let s := Session.start true
    (lex a).map Token.kind = (lex b).map Token.kind ∧
      (s.run a).failures.map Failure.span? ≠ (s.run b).failures.map Failure.span? ∧
      (s.run a).failures.map Failure.kind = ["contract_violation"] ∧
      (s.run a).results.map (StatementResult.relabel (.bare (.refl Nat))) =
        (s.run b).results.map (StatementResult.relabel (.bare (.refl Nat))) ∧
      (s.run a).Alike (.refl Nat) (.refl Nat) (s.run b) := by
  intro a b s
  have hkinds : (lex a).map Token.kind = (lex b).map Token.kind := by decide +kernel
  have hplaces : (s.run a).failures.map Failure.span? ≠ (s.run b).failures.map Failure.span? := by
    decide +kernel
  have hkind : (s.run a).failures.map Failure.kind = ["contract_violation"] := by decide +kernel
  clear_value a b s
  have hrun := run_layout_invariant (Alike.refl s) hkinds
  exact ⟨hkinds, hplaces, hkind, hrun.1, hrun.2.2.2.2⟩

end Session

end ContractML

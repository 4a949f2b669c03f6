import ContractML.Proofs.Layout

/-!
# Runs in batches

A text can be run at once, or in two batches on one session. If the first batch ends with a
terminator this makes no difference but to positions. Blanks and comments at its end are complete,
so the second batch has the same tokens after them as it has alone; no statement reaches over a
terminator, so the statements of both batches are read as they are read alone; and a session goes on
where the last run has left it.

## Main results

* `Lexes.append` — the tokens of two batches are those of the whole text.
* `Program.entriesOf_append` — so are the statements and the syntax errors.
* `Session.runEntries_append` — entries are run one after the other.
* `Session.run_batches` — **running in batches is running at once**.
-/

namespace ContractML

open Text (bytes)

/-! ### The seam -/

/-- Outside comments it does not matter where the last one began. -/
theorem skipTrivia_start (start start' : Nat) (cs : List Char) (n : Nat) :
    skipTrivia 0 start cs n = skipTrivia 0 start' cs n := by
  induction cs generalizing n with
  | nil => rfl
  | cons c cs ih =>
    by_cases hopen : ∃ ds, c = '(' ∧ cs = '*' :: ds
    · obtain ⟨ds, rfl, rfl⟩ := hopen
      rfl
    · have hmark : ∀ ds, c = '(' → cs = '*' :: ds → False := fun ds hc hcs => hopen ⟨ds, hc, hcs⟩
      rw [skipTrivia_outside start n hmark, skipTrivia_outside start' n hmark, ih]

/-- A blank opens no comment. -/
theorem no_mark_of_isBlank {c : Char} (h : Text.isBlank c = true) (cs : List Char) :
    ∀ ds, c = '(' → cs = '*' :: ds → False := by
  rintro ds rfl -
  exact absurd h (by decide)

/-- If skipping reaches the end of a text, it goes on in the text that follows. -/
theorem skipTrivia_append (d start : Nat) (cs : List Char) (n : Nat) {m : Nat}
    (h : skipTrivia d start cs n = .ok ⟨[], m⟩) (ds : List Char) :
    ∃ start', skipTrivia d start (cs ++ ds) n = skipTrivia 0 start' ds (n + bytes cs) := by
  have hmark : ∀ (a b : Char) (es : List Char) (k : Nat), a.utf8Size = 1 → b.utf8Size = 1 →
      k + bytes (a :: b :: es) = k + 2 + bytes es := by
    intro a b es k ha hb
    rw [Text.bytes_cons, Text.bytes_cons, ha, hb]
    omega
  induction d, start, cs, n using skipTrivia.induct with
  | case1 start n => exact ⟨start, rfl⟩
  | case2 d start n => cases h
  | case3 start cs n ih =>
    rw [hmark _ _ _ _ (by decide) (by decide)]
    exact ih h
  | case4 d start cs n ih =>
    rw [hmark _ _ _ _ (by decide) (by decide)]
    exact ih h
  | case5 d start cs n ih =>
    rw [hmark _ _ _ _ (by decide) (by decide)]
    exact ih h
  | case6 start c cs n hopen hblank ih =>
    rw [skipTrivia_outside start n hopen, if_pos hblank] at h
    rw [List.cons_append, skipTrivia_outside start n (no_mark_of_isBlank hblank _), if_pos hblank,
      Text.bytes_cons, ← Nat.add_assoc]
    exact ih h
  | case7 start c cs n hopen hblank =>
    rw [skipTrivia_outside start n hopen, if_neg hblank] at h
    cases h
  | case8 d start c cs n hopen hclose ih =>
    rw [skipTrivia_inside d start n hopen hclose] at h
    cases cs with
    | nil => cases h
    | cons b cs =>
      -- the comment goes on, so what could complete a mark with `c` is in the first text
      have hhead : (b :: cs ++ ds).head? = (b :: cs).head? := rfl
      rw [List.cons_append, skipTrivia_inside d start n (no_mark_of_head? hopen hhead)
        (no_mark_of_head? hclose hhead), Text.bytes_cons, ← Nat.add_assoc]
      exact ih h

/-- Blanks and complete comments before a text only move its first token. -/
theorem nextToken_append {cs : List Char} (h : ∀ n, nextToken cs n = none) (ds : List Char)
    (n : Nat) : nextToken (cs ++ ds) n = nextToken ds (n + bytes cs) := by
  have hcs := h n
  unfold nextToken at hcs ⊢
  split at hcs
  · cases hcs
  · rename_i m hskip
    obtain ⟨start, happend⟩ := skipTrivia_append 0 n cs n hskip ds
    rw [happend, skipTrivia_start start (n + bytes cs)]
  · cases hcs

/-- The lexeme with more blanks and comments before it. -/
def Lexeme.after (cs : List Char) (l : Lexeme) : Lexeme := { l with blank := cs ++ l.blank }

theorem Lexeme.Begins.after {cs w : List Char} {l : Lexeme} (h : ∀ n, nextToken cs n = none)
    (hl : l.Begins w) : (l.after cs).Begins w where
  ne := hl.ne
  semis := hl.semis
  next w' n hw := by
    have hnext := hl.next w' (n + bytes cs) hw
    rw [← nextToken_append h] at hnext
    simpa [Lexeme.after, Lexeme.token, Lexeme.size, Nat.add_assoc] using hnext

theorem Lexes.ne_nil {w : List Char} {l : Lexeme} {ls : List Lexeme} (h : Lexes w (l :: ls)) :
    w ≠ [] := by
  cases h with
  | token hl _ => simp [hl.ne]

/-- **The tokens of two batches are those of the whole text**, if the first one ends with a
terminator. -/
theorem Lexes.append {cs ds : List Char} {ls ms : List Lexeme} (hcs : Lexes cs ls)
    (hlast : ∀ l ∈ ls.getLast?, l.kind.isTerminator = true) (hds : Lexes ds ms) :
    ∃ ms', Lexes (cs ++ ds) (ls ++ ms') ∧ ms'.map Lexeme.kind = ms.map Lexeme.kind := by
  induction hcs with
  | @blank cs h =>
    cases hds with
    | blank hnone =>
      refine ⟨[], .blank fun n => ?_, rfl⟩
      rw [nextToken_append h, hnone]
    | @token l w ms hl hrest =>
      refine ⟨l.after cs :: ms, ?_, rfl⟩
      have htoken := Lexes.token (hl.after h) hrest
      rwa [Lexeme.after, List.append_assoc] at htoken
  | @token l w ls hl hrest ih =>
    have htail : ∀ k ∈ ls.getLast?, k.kind.isTerminator = true := by
      intro k hk
      exact hlast k (List.mem_getLast?_cons hk)
    have hbegins : l.Begins (w ++ ds) := by
      refine ⟨hl.ne, hl.semis, fun w' n hw' => hl.next w' n ?_⟩
      cases ls with
      | nil => exact .inr (hlast l rfl)
      | cons k ls =>
        obtain ⟨c, w, rfl⟩ := List.exists_cons_of_ne_nil hrest.ne_nil
        exact hw'
    obtain ⟨ms', hlexes, hkinds⟩ := ih htail
    refine ⟨ms', ?_, hkinds⟩
    have htoken := Lexes.token hbegins hlexes
    simpa using htoken

theorem Lexeme.kind_tokens (n : Nat) (ls : List Lexeme) :
    (tokens n ls).map Token.kind = ls.map Lexeme.kind := by
  induction ls generalizing n with
  | nil => rfl
  | cons l ls ih => rw [tokens_cons, List.map_cons, ih, List.map_cons]; rfl

/-- The kinds of the tokens of two batches. -/
theorem kind_lex_append {p q : String}
    (hp : ∀ k ∈ ((lex p).map Token.kind).getLast?, k.isTerminator = true) :
    (lex (p ++ q)).map Token.kind = (lex p).map Token.kind ++ (lex q).map Token.kind := by
  obtain ⟨ls, hls⟩ := exists_lexes p.toList
  obtain ⟨ms, hms⟩ := exists_lexes q.toList
  rw [hls.lex_eq, Lexeme.kind_tokens] at hp ⊢
  have hlast : ∀ l ∈ ls.getLast?, l.kind.isTerminator = true := by
    intro l hl
    refine hp l.kind ?_
    rw [List.getLast?_map]
    exact Option.mem_map_of_mem Lexeme.kind hl
  obtain ⟨ms', happend, hkinds⟩ := hls.append hlast hms
  rw [← String.toList_append] at happend
  rw [happend.lex_eq, hms.lex_eq, Lexeme.kind_tokens, Lexeme.kind_tokens, List.map_append, hkinds]

/-! ### Statements -/

/-- The next statement begins after the first terminator. -/
theorem Stream.skipStatement_ofKinds {ks : List TokenKind} {k : TokenKind}
    (h : ∀ k ∈ ks, k.isTerminator = false) (hk : k.isTerminator = true) (ms : List TokenKind) :
    (ofKinds (ks ++ k :: ms)).skipStatement = ofKinds ms := by
  induction ks with
  | nil => exact skipStatement_terminator hk
  | cons k' ks ih =>
    have hskip := ih fun k hk => h k (List.mem_cons_of_mem k' hk)
    rw [← hskip]
    exact skipStatement_cons (h k' List.mem_cons_self)

namespace Program

/-- Steps and fuel do not matter, if there are enough of them. -/
theorem entriesFrom_ofKinds {steps fuel : Nat} {ms : List TokenKind}
    (hsteps : 8 * ms.length + 6 ≤ steps) (hfuel : ms.length ≤ fuel) :
    entriesFrom steps fuel (.ofKinds ms) = entriesOf ms := by
  let S : Site := ⟨id, monotone_id, [], 0⟩
  have hlength : (Stream.ofKinds ms).tokens.length = ms.length := List.length_map _
  have halone : entriesFrom steps fuel ((Stream.ofKinds ms).inside S) =
      (entriesOf ms).map (Entry.move id) := by
    refine entriesFrom_alone rfl rfl ?_ ?_ ?_ ?_ <;> rw [hlength]
    · exact le_stepsFor ms.length
    · exact hsteps
    · exact hfuel
  have hinside : (Stream.ofKinds ms).inside S = .ofKinds ms := by
    simp [Stream.inside, Stream.ofKinds, S]
  have hmove : Entry.move id = id := funext Entry.move_id
  rwa [hinside, hmove, List.map_id] at halone

/-- What is read first is read from the tokens up to the first terminator. -/
theorem entriesOf_cons {ks : List TokenKind} {k : TokenKind}
    (h : ∀ k ∈ ks, k.isTerminator = false) (hk : k.isTerminator = true) (ms : List TokenKind) :
    entriesOf (ks ++ k :: ms) =
      Entry.first (stepsFor (ks ++ [k]).length) (.ofKinds (ks ++ [k])) :: entriesOf ms := by
  let S : Site := ⟨id, monotone_id, (Stream.ofKinds ms).tokens, 0⟩
  have hready : Parse.Ready S 6 (stepsFor (ks ++ [k]).length) (stepsFor (ks ++ k :: ms).length)
      (.ofKinds (ks ++ [k])) := by
    refine ⟨.inr ⟨⟨k, .nowhere⟩, by simp [Stream.ofKinds], hk⟩, ?_⟩
    simp only [Stream.ofKinds, List.length_map, List.length_append, List.length_cons,
      List.length_nil, stepsFor]
    omega
  have hne : (Stream.ofKinds (ks ++ [k])).tokens ≠ [] := by simp [Stream.ofKinds]
  have hinside : (Stream.ofKinds (ks ++ [k])).inside S = .ofKinds (ks ++ k :: ms) := by
    simp [Stream.inside, Stream.ofKinds, S]
  have hskip : (Stream.ofKinds (ks ++ [k])).skipStatement.inside S = .ofKinds ms := by
    rw [Stream.skipStatement_ofKinds h hk]
    simp [Stream.inside, Stream.ofKinds, S]
  have hlength : (ks ++ k :: ms).length = (ks ++ ms).length + 1 := by simp [Nat.add_assoc]
  have hread := entriesFrom_inside hready hne (ks ++ ms).length
  rw [hinside, hskip, Entry.move_id, ← hlength] at hread
  have hrest : entriesFrom (stepsFor (ks ++ k :: ms).length) (ks ++ ms).length (.ofKinds ms) =
      entriesOf ms := by
    refine entriesFrom_ofKinds ?_ ?_ <;> simp [stepsFor]
    omega
  rw [entriesOf, hread, hrest]

/-- **The statements and the syntax errors of two batches are those of the whole text**, if the
first one ends with a terminator. -/
theorem entriesOf_append {ks : List TokenKind}
    (hlast : ∀ k ∈ ks.getLast?, k.isTerminator = true) (ms : List TokenKind) :
    entriesOf (ks ++ ms) = entriesOf ks ++ entriesOf ms := by
  -- one statement after the other: what follows the first terminator has fewer tokens
  induction hn : ks.length using Nat.strongRecOn generalizing ks with
  | ind n ih =>
    cases hfind : ks.find? TokenKind.isTerminator with
    | none =>
      have hplain : ∀ k ∈ ks, k.isTerminator = false := by simpa using hfind
      have hnil : ks = [] := by
        by_contra hne
        have hend := hlast _ (List.getLast_mem_getLast? hne)
        rw [hplain _ (List.getLast_mem hne)] at hend
        cases hend
      rw [hnil]
      rfl
    | some k =>
      obtain ⟨hk, before, after, rfl, hbefore⟩ := List.find?_eq_some_iff_append.mp hfind
      have hbefore : ∀ k ∈ before, k.isTerminator = false := by simpa using hbefore
      have hshort : after.length < n := by
        rw [← hn, List.length_append, List.length_cons]
        omega
      have hafter : ∀ k ∈ after.getLast?, k.isTerminator = true := by
        intro k' hk'
        refine hlast k' ?_
        rw [List.getLast?_append_cons]
        exact List.mem_getLast?_cons hk'
      rw [List.append_assoc, List.cons_append, entriesOf_cons hbefore hk,
        entriesOf_cons hbefore hk, ih after.length hshort hafter rfl]
      rfl

end Program

/-! ### Runs -/

namespace Session

/-- A session goes on where it has stopped. -/
theorem runEntries_append (s : Session) (xs ys : List Entry) :
    s.runEntries (xs ++ ys) =
      ((s.runEntries xs).1 ++ ((s.runEntries xs).2.runEntries ys).1,
        ((s.runEntries xs).2.runEntries ys).2) := by
  induction xs generalizing s with
  | nil => rfl
  | cons x xs ih =>
    cases x with
    | malformed e =>
      rw [List.cons_append, runEntries, ih, runEntries]
      rfl
    | statement stmt =>
      rw [List.cons_append, runEntries, ih, runEntries]
      rfl

namespace Alike

variable {π π' : Nat ↪ Nat} {s t : Session}

/-- Sessions that are alike bind the same names, to values that differ in labels only. -/
theorem get? (h : s.Alike π π' t) (name : String) :
    (s.get? name).map (Value.relabel (.bare π)) = (t.get? name).map (Value.relabel (.bare π')) := by
  obtain ⟨u, hs, ht⟩ := h
  exact (hs.store.getIn? _ name).symm.trans (ht.store.getIn? _ name)

/-- Sessions that are alike have the same contracts for the same names, up to positions. -/
theorem lookup? (h : s.Alike π π' t) (name : String) :
    (s.scopes.lookup? name).map (ContractExpr.move fun _ => 0) =
      (t.scopes.lookup? name).map (ContractExpr.move fun _ => 0) := by
  obtain ⟨u, hs, ht⟩ := h
  exact (hs.scopes.lookup? name).symm.trans (ht.scopes.lookup? name)

end Alike

/-- **Running in batches is running at once.** Let the last token of a text be a terminator, and let
any other text follow it. The results of both, run one after the other on one session, are the
results of the whole text run at once, up to positions. Either way names are bound to the same
values, the same contracts are declared, and the closures have the same identities. -/
theorem run_batches (s : Session) {p : String}
    (hp : ∀ t ∈ (lex p).getLast?, t.kind = .symbol .semiSemi) (q : String) :
    (s.run (p ++ q)).results.map (StatementResult.relabel (.bare (.refl Nat))) =
        ((s.run p).results ++ ((s.run p).run q).results).map
          (StatementResult.relabel (.bare (.refl Nat))) ∧
      (∀ name, ((s.run (p ++ q)).get? name).map (Value.relabel (.bare (.refl Nat))) =
        (((s.run p).run q).get? name).map (Value.relabel (.bare (.refl Nat)))) ∧
      (∀ name, ((s.run (p ++ q)).scopes.lookup? name).map (ContractExpr.move fun _ => 0) =
        (((s.run p).run q).scopes.lookup? name).map (ContractExpr.move fun _ => 0)) ∧
      (s.run (p ++ q)).Alike (.refl Nat) (.refl Nat) ((s.run p).run q) := by
  have hlast : ∀ k ∈ ((lex p).map Token.kind).getLast?, k.isTerminator = true := by
    intro k hk
    rw [List.getLast?_map] at hk
    obtain ⟨t, ht, rfl⟩ := Option.mem_map.mp hk
    rw [hp t ht]
    rfl
  -- all three runs are compared with those of one session without positions
  have hs : s.Relabels (.bare (.refl Nat)) (s.relabel (.bare (.refl Nat)) _) :=
    relabels_relabel rfl fun _ => rfl
  obtain ⟨hwhole, hwhole'⟩ := hs.run (p ++ q)
  obtain ⟨hfirst, hfirst'⟩ := hs.run p
  obtain ⟨hsecond, hsecond'⟩ := hfirst'.run q
  rw [kind_lex_append hlast, Program.entriesOf_append hlast, runEntries_append] at hwhole hwhole'
  have halike : (s.run (p ++ q)).Alike (.refl Nat) (.refl Nat) ((s.run p).run q) :=
    ⟨_, hwhole', hsecond'⟩
  refine ⟨?_, halike.get?, halike.lookup?, halike⟩
  rw [List.map_append, hwhole, hfirst, hsecond]

/-- The first batch ends with a comment, the second one begins with a malformed statement and uses
what the first one has bound and declared. -/
theorem run_batches_across_comment :
    let p := "contract n = positive;; let x = 1;; (* ;; *)"
    let q := " x + ;; let n = x - 1;; let f y = y;;"
    let s := Session.start true
    (∀ t ∈ (lex p).getLast?, t.kind = .symbol .semiSemi) ∧
      (s.run (p ++ q)).failures.map Failure.kind = ["syntax", "contract_violation"] ∧
      (s.run (p ++ q)).failures.map Failure.span? ≠ ((s.run p).run q).failures.map Failure.span? ∧
      (s.run (p ++ q)).results.map (StatementResult.relabel (.bare (.refl Nat))) =
        ((s.run p).results ++ ((s.run p).run q).results).map
          (StatementResult.relabel (.bare (.refl Nat))) ∧
      (s.run (p ++ q)).Alike (.refl Nat) (.refl Nat) ((s.run p).run q) := by
  intro p q s
  have hp : ∀ t ∈ (lex p).getLast?, t.kind = .symbol .semiSemi := by decide +kernel
  have hkinds : (s.run (p ++ q)).failures.map Failure.kind = ["syntax", "contract_violation"] := by
    decide +kernel
  have hplaces : (s.run (p ++ q)).failures.map Failure.span? ≠
      ((s.run p).run q).failures.map Failure.span? := by
    decide +kernel
  clear_value p q s
  have hrun := run_batches s hp q
  exact ⟨hp, hkinds, hplaces, hrun.1, hrun.2.2.2⟩

end Session

end ContractML

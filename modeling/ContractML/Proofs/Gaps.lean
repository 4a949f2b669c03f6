import ContractML.Proofs.TokenSpans

/-!
# What stands between tokens

A text is cut into tokens and gaps, and no character is lost: between two tokens, before the first
one and after the last one there are only blanks and complete comments. Text that forms no token is
a faulty token, so it is no gap either: a comment that is not closed is one, and it reaches to the
end of the text.

## Main definitions

* `Gap` — blanks and complete comments.
* `Passed` — what is passed over before a token, or before a comment that is not closed.

## Main results

* `passed_skipTrivia` — only gaps are skipped.
* `nextToken_of_none`, `nextToken_of_some` — a text without a token is a gap; otherwise **the lexer
  goes forward by a gap and a token**.
* `Lexes.gaps` — **a text consists of tokens with gaps between them**.
-/

namespace ContractML

open Text (bytes)

/-! ### Gaps -/

/-- Blanks and complete comments, when `d` comments are open before them: all of these are closed,
and so is every comment that is opened. The marks of comments are read from left to right. -/
inductive Gap : (d : Nat) → List Char → Prop where
  /-- No comment is open at the end. -/
  | nil : Gap 0 []
  /-- A blank outside comments. -/
  | blank {c : Char} {cs : List Char} (h : Text.isBlank c = true) : Gap 0 cs → Gap 0 (c :: cs)
  /-- One more comment is opened. -/
  | opening {d : Nat} {cs : List Char} : Gap (d + 1) cs → Gap d ('(' :: '*' :: cs)
  /-- The innermost comment is closed. -/
  | closing {d : Nat} {cs : List Char} : Gap d cs → Gap (d + 1) ('*' :: ')' :: cs)
  /-- A character inside a comment that begins no mark. -/
  | inside {d : Nat} {c : Char} {cs : List Char} (hopen : ¬['(', '*'] <+: c :: cs)
      (hclose : ¬['*', ')'] <+: c :: cs) : Gap (d + 1) cs → Gap (d + 1) (c :: cs)

/-- Two characters that are no mark are none in a shorter text. -/
theorem not_mark_of_append {a b c : Char} {cs gap rest : List Char}
    (h : ∀ ds, c = a → cs = b :: ds → False) (hcs : cs = gap ++ rest) : ¬[a, b] <+: c :: gap := by
  rintro ⟨ds, hds⟩
  obtain ⟨rfl, hgap⟩ := List.cons.inj hds
  refine h (ds ++ rest) rfl ?_
  rw [hcs, ← hgap]
  rfl

/-! ### Skipping -/

/-- What skipping comes to in the text `cs` at offset `n`, when `d` comments are open, the outermost
of which began at `start`: a gap is passed over up to the next token or the end, or there is a
comment that is not closed. -/
inductive Passed (d start : Nat) (cs : List Char) (n : Nat) : Except Span Cursor → Prop where
  /-- There is a gap before what is left. -/
  | reached {gap rest : List Char} (h : Gap d gap) (split : cs = gap ++ rest) :
    Passed d start cs n (.ok ⟨rest, n + bytes gap⟩)
  /-- A comment that was open before the text is not closed. -/
  | unclosed (pos : 0 < d) : Passed d start cs n (.error ⟨start, n + bytes cs⟩)
  /-- After a gap there is a comment that is not closed. -/
  | opened {gap rest : List Char} (h : Gap d gap) (split : cs = gap ++ rest) (ne : rest ≠ []) :
    Passed d start cs n (.error ⟨n + bytes gap, n + bytes cs⟩)

/-- The characters `p` are passed over, after which `e` comments are open. -/
theorem Passed.prepend {d e start n m : Nat} {p cs : List Char} {r : Except Span Cursor}
    (hp : ∀ gap rest, cs = gap ++ rest → Gap e gap → Gap d (p ++ gap)) (hd : 0 < e → 0 < d)
    (hm : m = n + bytes p) (h : Passed e start cs m r) : Passed d start (p ++ cs) n r := by
  subst hm
  have hbytes : ∀ us, n + bytes p + bytes us = n + bytes (p ++ us) := by
    intro us
    rw [Text.bytes_append, Nat.add_assoc]
  cases h with
  | @reached gap rest h split =>
    rw [hbytes]
    exact .reached (hp gap rest split h) (by rw [split, List.append_assoc])
  | unclosed pos =>
    rw [hbytes]
    exact .unclosed (hd pos)
  | @opened gap rest h split ne =>
    rw [hbytes, hbytes]
    exact .opened (hp gap rest split h) (by rw [split, List.append_assoc]) ne

/-- A comment that is opened outside comments. If it is not closed, it begins here. -/
theorem Passed.comment {start n : Nat} {cs : List Char} {r : Except Span Cursor}
    (h : Passed 1 n cs (n + 2) r) : Passed 0 start ('(' :: '*' :: cs) n r := by
  have hbytes : ∀ us, n + 2 + bytes us = n + bytes ('(' :: '*' :: us) := by
    intro us
    have h₁ : '('.utf8Size = 1 := by decide
    have h₂ : '*'.utf8Size = 1 := by decide
    rw [Text.bytes_cons, Text.bytes_cons, h₁, h₂]
    omega
  cases h with
  | @reached gap rest h split =>
    rw [hbytes]
    exact .reached (.opening h) (by rw [split]; rfl)
  | unclosed _ =>
    rw [hbytes]
    exact .opened .nil rfl (List.cons_ne_nil _ _)
  | @opened gap rest h split ne =>
    rw [hbytes, hbytes]
    exact .opened (.opening h) (by rw [split]; rfl) ne

/-- **Only gaps are skipped.** -/
theorem passed_skipTrivia (d start : Nat) (cs : List Char) (n : Nat) :
    Passed d start cs n (skipTrivia d start cs n) := by
  -- one case for each rule of `skipTrivia`, each of which is a rule of `Gap`
  induction d, start, cs, n using skipTrivia.induct with
  | case1 start n => exact .reached .nil rfl
  | case2 d start n => exact .unclosed d.succ_pos
  | case3 start cs n ih => exact ih.comment
  | case4 d start cs n ih =>
    exact ih.prepend (p := ['(', '*']) (fun _ _ _ h => .opening h) (fun _ => d.succ_pos) rfl
  | case5 d start cs n ih =>
    exact ih.prepend (p := ['*', ')']) (fun _ _ _ h => .closing h) (fun _ => d.succ_pos) rfl
  | case6 start c cs n hopen hblank ih =>
    rw [skipTrivia_outside start n hopen, if_pos hblank]
    exact ih.prepend (p := [c]) (fun _ _ _ h => .blank hblank h) id (by simp)
  | case7 start c cs n hopen hblank =>
    rw [skipTrivia_outside start n hopen, if_neg hblank]
    exact .reached .nil rfl
  | case8 d start c cs n hopen hclose ih =>
    rw [skipTrivia_inside d start n hopen hclose]
    refine ih.prepend (p := [c]) (fun gap rest split h => ?_) id (by simp)
    exact .inside (not_mark_of_append hopen split) (not_mark_of_append hclose split) h

/-! ### One token -/

/-- If there is no token, the text is a gap, and the lexer has come to its end. -/
theorem nextToken_of_none {cs : List Char} {n : Nat} (h : nextToken cs n = none) :
    Gap 0 cs ∧ skipTrivia 0 n cs n = .ok ⟨[], n + bytes cs⟩ := by
  have hpassed := passed_skipTrivia 0 n cs n
  unfold nextToken at h
  split at h
  next => cases h
  next offset hskip =>
    rw [hskip] at hpassed
    obtain @⟨gap, _, hgap, rfl⟩ := hpassed
    rw [List.append_nil] at hskip ⊢
    exact ⟨hgap, hskip⟩
  next => cases h

example : Gap 0 "(* * (* ) *) ( *) ".toList := (nextToken_of_none (n := 0) (by decide)).1

/-- **The lexer goes forward by a gap and a token**, whatever the token is. The token has at least
one character, and stands where its characters are. -/
theorem nextToken_of_some {cs : List Char} {n : Nat} {t : Token} {next : Cursor}
    (h : nextToken cs n = some (t, next)) :
    ∃ gap text, Gap 0 gap ∧ text ≠ [] ∧ cs = gap ++ (text ++ next.rest) ∧
      t.span = ⟨n + bytes gap, next.offset⟩ ∧ next.offset = n + bytes gap + bytes text := by
  have hpassed := passed_skipTrivia 0 n cs n
  unfold nextToken at h
  split at h
  next span hskip =>
    rw [hskip] at hpassed
    cases h
    cases hpassed with
    | unclosed pos => exact absurd pos (Nat.lt_irrefl 0)
    | @opened gap rest hgap split ne =>
      refine ⟨gap, rest, hgap, ne, by rw [split, List.append_nil], rfl, ?_⟩
      rw [split, Text.bytes_append, Nat.add_assoc]
  next => cases h
  next c ds start hskip =>
    rw [hskip] at hpassed
    obtain @⟨gap, _, hgap, rfl⟩ := hpassed
    obtain ⟨u, w, k, rfl, -, hrun⟩ := scanToken_run c ds
    simp only [hrun w (n + bytes gap) (.inl rfl), Option.some.injEq, Prod.mk.injEq] at h
    obtain ⟨rfl, rfl⟩ := h
    exact ⟨gap, c :: u, hgap, List.cons_ne_nil c u, rfl, rfl, rfl⟩

/-! ### Texts -/

/-- The characters of lexemes, each after its blanks and comments. -/
def Lexeme.texts (ls : List Lexeme) : List Char := ls.flatMap fun l => l.blank ++ l.text

/-- There is a gap before a lexeme. -/
theorem Lexeme.Begins.gap {l : Lexeme} {w : List Char} (h : l.Begins w) : Gap 0 l.blank := by
  obtain ⟨gap, text, hgap, -, hsplit, hspan, -⟩ := nextToken_of_some (h.next w 0 (.inl rfl))
  -- the two gaps have as many bytes
  have hbytes : bytes l.blank = bytes gap := by
    have hstart : 0 + bytes l.blank = 0 + bytes gap := congrArg Span.start hspan
    omega
  have hboth : (l.blank, l.text ++ w) = (gap, text ++ w) := by
    rw [← Text.splitBytes_append, hsplit, hbytes, Text.splitBytes_append]
  rw [(Prod.mk.inj hboth).1]
  exact hgap

/-- **A text consists of tokens with gaps between them**, and a gap after the last one. -/
theorem Lexes.gaps {cs : List Char} {ls : List Lexeme} (h : Lexes cs ls) :
    (∀ l ∈ ls, Gap 0 l.blank ∧ l.text ≠ []) ∧
      ∃ tail, Gap 0 tail ∧ cs = Lexeme.texts ls ++ tail := by
  induction h with
  | @blank cs hnone => exact ⟨nofun, cs, (nextToken_of_none (hnone 0)).1, rfl⟩
  | @token l w ls hl _ ih =>
    obtain ⟨hls, tail, htail, rfl⟩ := ih
    refine ⟨List.forall_mem_cons.mpr ⟨⟨hl.gap, hl.ne⟩, hls⟩, tail, htail, ?_⟩
    simp [Lexeme.texts]

/-- There are at most as many tokens as characters. -/
theorem Lexes.length_le {cs : List Char} {ls : List Lexeme} (h : Lexes cs ls) :
    ls.length ≤ cs.length := by
  induction h with
  | blank _ => exact Nat.zero_le _
  | @token l w ls hl _ ih =>
    have hpos := List.length_pos_iff.mpr hl.ne
    simp only [List.length_append, List.length_cons]
    omega

end ContractML

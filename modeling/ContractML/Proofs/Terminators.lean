import ContractML.Proofs.Spelling

/-!
# A terminator after a text

If a text ends as an expression does, then a terminator that is written right after it is one more
token, and the tokens of the text stay what they are. This is so since the last token is a number, a
word, a quoted character or string or a closing parenthesis, and none of them becomes longer by a
semicolon. A comment that is still open would hide the terminator, and a semicolon would take a part
of it, but neither of them ends an expression.

## Main definitions

* `TokenKind.endsExpr` — the tokens with which an expression can end.

## Main results

* `scanToken_semicolon` — the last token is the same before a semicolon.
* `Spells.terminated` — **a terminator after a text is one more token**.
-/

namespace ContractML

/-- Whether an expression can end with the token. -/
def TokenKind.endsExpr : TokenKind → Bool
  | int _ | float _ | char _ | str _ | ident _ => true
  | keyword .kwTrue | keyword .kwFalse | symbol .rparen => true
  | _ => false

theorem TokenKind.isTerminator_of_endsExpr {k : TokenKind} (h : k.endsExpr = true) :
    k.isTerminator = false := by
  cases k with
  | symbol s => cases s <;> cases h; rfl
  | _ => rfl

/-! ### Quoted tokens and numbers -/

/-- A string that is closed does not depend on what follows it. -/
theorem scanString_append {acc cs w : List Char} {n m : Nat} {k : TokenKind}
    (h : scanString acc cs n = (k, ⟨w, m⟩)) (hk : k.endsExpr = true) (ds : List Char) :
    scanString acc (cs ++ ds) n = (k, ⟨w ++ ds, m⟩) := by
  induction acc, cs, n using scanString.induct with
  | case1 acc n =>
    cases h
    cases hk
  | case2 acc cs n =>
    cases h
    rfl
  | case3 acc n =>
    cases h
    cases hk
  | case4 acc c cs n ih =>
    rw [scanString] at h
    rw [List.cons_append, List.cons_append, scanString]
    exact ih h
  | case5 acc c cs n hquote hlast hescape ih =>
    -- A backslash would be one of the two cases before, at the end of the text or with a character
    -- after it.
    have hbackslash : c ≠ '\\' := by
      rintro rfl
      cases cs with
      | nil => exact hlast rfl rfl
      | cons d cs => exact hescape d cs rfl rfl
    have hstep : ∀ es, scanString acc (c :: es) n = scanString (c :: acc) es (n + c.utf8Size) := by
      intro es
      rw [scanString]
      · exact hquote
      · exact fun hc _ => hbackslash hc
      · exact fun _ _ hc _ => hbackslash hc
    rw [hstep] at h
    rw [List.cons_append, hstep]
    exact ih h

theorem closeChar_append {c : Char} {cs w : List Char} {n m : Nat} {k : TokenKind}
    (h : closeChar c cs n = (k, ⟨w, m⟩)) (hk : k.endsExpr = true) (ds : List Char) :
    closeChar c (cs ++ ds) n = (k, ⟨w ++ ds, m⟩) := by
  unfold closeChar at h
  split at h
  · cases h
    cases hk
  · cases h
    rfl
  · cases h
    cases hk

/-- A character that is closed does not depend on what follows it. -/
theorem scanChar_append {cs w : List Char} {n m : Nat} {k : TokenKind}
    (h : scanChar cs n = (k, ⟨w, m⟩)) (hk : k.endsExpr = true) (ds : List Char) :
    scanChar (cs ++ ds) n = (k, ⟨w ++ ds, m⟩) := by
  unfold scanChar at h
  split at h
  · cases h
    cases hk
  · cases h
    cases hk
  · rw [List.cons_append, List.cons_append, scanChar]
    exact closeChar_append h hk ds
  · rename_i c cs hlast hescape
    have hbackslash : c ≠ '\\' := by
      rintro rfl
      cases cs with
      | nil => exact hlast rfl rfl
      | cons d cs => exact hescape d cs rfl rfl
    rw [List.cons_append, scanChar]
    · exact closeChar_append h hk ds
    · exact fun hc _ => hbackslash hc
    · exact fun _ _ hc _ => hbackslash hc

/-- A numeral ends before a semicolon. -/
theorem scanNumeral_semicolon {a b : Numeral} {cs : List Char} {n m : Nat}
    (h : scanNumeral a cs n = (b, ⟨[], m⟩)) (ds : List Char) :
    scanNumeral a (cs ++ ';' :: ds) n = (b, ⟨';' :: ds, m⟩) := by
  induction a, cs, n using scanNumeral.induct with
  | case1 a n =>
    cases h
    rfl
  | case2 a c cs n hc ih =>
    rw [scanNumeral, if_pos hc] at h
    rw [List.cons_append, scanNumeral, if_pos hc]
    exact ih h
  | case3 a c cs n hdigit hc ih =>
    rw [scanNumeral, if_neg hdigit, if_pos hc] at h
    rw [List.cons_append, scanNumeral, if_neg hdigit, if_pos hc]
    exact ih h
  | case4 a c cs n hdigit hline hc ih =>
    rw [scanNumeral, if_neg hdigit, if_neg hline, if_pos hc] at h
    rw [List.cons_append, scanNumeral, if_neg hdigit, if_neg hline, if_pos hc]
    exact ih h
  | case5 a c cs n hdigit hline hpoint =>
    rw [scanNumeral, if_neg hdigit, if_neg hline, if_neg hpoint] at h
    cases h

/-! ### The last token -/

theorem ofTwo?_semicolon {c : Char} (h : Symbol.ofOne? c = none) : Symbol.ofTwo? c ';' = none := by
  unfold Symbol.ofTwo?
  split <;> simp_all [Symbol.ofOne?]

/-- A token with which an expression can end goes no further than to a semicolon. -/
theorem scanToken_semicolon {c : Char} {cs : List Char} {n m : Nat} {k : TokenKind}
    (h : scanToken c cs n = (k, ⟨[], m⟩)) (hk : k.endsExpr = true) (ds : List Char) :
    scanToken c (cs ++ ';' :: ds) n = (k, ⟨';' :: ds, m⟩) := by
  cases htwo : cs.head?.bind (Symbol.ofTwo? c) with
  | some s =>
    -- Symbols of two characters do not end an expression.
    rw [scanToken, htwo] at h
    obtain ⟨d, -, hs⟩ := Option.bind_eq_some_iff.mp htwo
    obtain ⟨rfl, -⟩ := Prod.mk.inj h
    unfold Symbol.ofTwo? at hs
    split at hs <;> cases hs <;> cases hk
  | none =>
    cases hone : Symbol.ofOne? c with
    | some s =>
      -- Of those of one character only the closing parenthesis does.
      rw [scanToken, htwo, hone] at h
      cases h
      obtain rfl : s = .rparen := by cases s <;> cases hk; rfl
      unfold Symbol.ofOne? at hone
      split at hone <;> cases hone
      rfl
    | none =>
      -- The semicolon makes no symbol of two characters with the one before it. What is left are
      -- strings, characters, numbers and words.
      have htwo' : (cs ++ ';' :: ds).head?.bind (Symbol.ofTwo? c) = none := by
        cases cs with
        | nil => exact ofTwo?_semicolon hone
        | cons d cs => exact htwo
      rw [scanToken, htwo, hone] at h
      rw [scanToken, htwo', hone]
      dsimp only at h ⊢
      split at h
      · next hstring =>
        rw [if_pos hstring]
        exact scanString_append h hk _
      next hstring =>
      rw [if_neg hstring]
      split at h
      · next hchar =>
        rw [if_pos hchar]
        exact scanChar_append h hk _
      next hchar =>
      rw [if_neg hchar]
      split at h
      · next hdigit =>
        rw [if_pos hdigit]
        rcases hnumeral : scanNumeral ⟨[c], none⟩ cs (n + 1) with ⟨b, w, m'⟩
        rw [hnumeral] at h
        cases h
        rw [scanNumeral_semicolon hnumeral]
      next hdigit =>
      rw [if_neg hdigit]
      split at h
      · next hword =>
        rw [if_pos hword]
        obtain ⟨hkind, hcursor⟩ := Prod.mk.inj h
        obtain ⟨hdrop, hsize⟩ := Cursor.mk.inj hcursor
        -- The word reached to the end of the text, and a semicolon does not go on with it.
        have hwhole : cs.takeWhile continuesWord = cs := by
          have hsplit := List.takeWhile_append_dropWhile (p := continuesWord) (l := cs)
          rwa [hdrop, List.append_nil] at hsplit
        have hall : ∀ d ∈ cs, continuesWord d = true := by
          rw [← hwhole]
          exact fun d hd => List.all_eq_true.mp List.all_takeWhile d hd
        obtain ⟨htake, hrest⟩ := takeWhile_append_of_head? (w := ';' :: ds) hall fun d hd => by
          cases hd
          rfl
        rw [htake, hrest, ← hkind, ← hsize, hwhole]
      · obtain ⟨rfl, -⟩ := Prod.mk.inj h
        cases hk

/-- Blanks and comments in front of a token are skipped all the same. -/
theorem skipTrivia_semicolon (d start : Nat) (cs : List Char) (n : Nat) {c : Char} {w : List Char}
    {m : Nat} (h : skipTrivia d start cs n = .ok ⟨c :: w, m⟩) (ds : List Char) :
    skipTrivia d start (cs ++ ';' :: ds) n = .ok ⟨c :: (w ++ ';' :: ds), m⟩ := by
  -- No mark of a comment has a semicolon as its second character, so none begins at the end.
  have hmark : ∀ {a b c : Char} {cs : List Char}, b ≠ ';' →
      (∀ es, c = a → cs = b :: es → False) → ∀ es, c = a → cs ++ ';' :: ds = b :: es → False := by
    intro a b c cs hb hcs
    cases cs with
    | nil =>
      rintro es hc hes
      exact hb (List.cons.inj hes).1.symm
    | cons e cs => exact no_mark_of_head? hcs rfl
  induction d, start, cs, n using skipTrivia.induct with
  | case1 start n => cases h
  | case2 d start n => cases h
  | case3 start cs n ih => exact ih h
  | case4 d start cs n ih => exact ih h
  | case5 d start cs n ih => exact ih h
  | case6 start b cs n hopen hblank ih =>
    rw [skipTrivia_outside start n hopen, if_pos hblank] at h
    rw [List.cons_append, skipTrivia_outside start n (hmark (by decide) hopen), if_pos hblank]
    exact ih h
  | case7 start b cs n hopen hblank =>
    rw [skipTrivia_outside start n hopen, if_neg hblank] at h
    rw [List.cons_append, skipTrivia_outside start n (hmark (by decide) hopen), if_neg hblank]
    cases h
    rfl
  | case8 d start b cs n hopen hclose ih =>
    rw [skipTrivia_inside d start n hopen hclose] at h
    rw [List.cons_append, skipTrivia_inside d start n (hmark (by decide) hopen)
      (hmark (by decide) hclose)]
    exact ih h

theorem nextToken_semicolon {cs : List Char} {n m : Nat} {t : Token}
    (h : nextToken cs n = some (t, ⟨[], m⟩)) (ht : t.kind.endsExpr = true) (ds : List Char) :
    nextToken (cs ++ ';' :: ds) n = some (t, ⟨';' :: ds, m⟩) := by
  unfold nextToken at h
  split at h
  · cases h
    cases ht
  · cases h
  · rename_i c w start hskip
    rcases hscan : scanToken c w start with ⟨k, w', m'⟩
    rw [hscan] at h
    cases h
    rw [nextToken, skipTrivia_semicolon 0 n cs n hskip]
    dsimp only
    rw [scanToken_semicolon hscan ht]

/-- A token with which an expression ends is the same before a semicolon as at the end. -/
theorem Lexeme.Begins.semicolon {l : Lexeme} (h : l.Begins []) (hl : l.kind.endsExpr = true)
    (ds : List Char) : l.Begins (';' :: ds) where
  ne := h.ne
  semis := h.semis
  next w n hw := by
    -- What follows begins with a semicolon, or the token is a terminator, which it is not.
    have hw : w.head? = some ';' := by
      rcases hw with hw | hterm
      · exact hw
      · exact absurd hterm (Bool.eq_false_iff.mp (TokenKind.isTerminator_of_endsExpr hl))
    obtain ⟨w, rfl⟩ := List.head?_eq_some_iff.mp hw
    have hnext := h.next [] n (.inl rfl)
    rw [List.append_nil] at hnext
    rw [← List.append_assoc]
    exact nextToken_semicolon hnext hl w

/-! ### The whole text -/

theorem Lexes.terminated {cs : List Char} {ls : List Lexeme} (h : Lexes cs ls)
    (hls : ∀ l ∈ ls.getLast?, l.kind.endsExpr = true) :
    ∃ ms, Lexes (cs ++ [';', ';']) (ls ++ ms) ∧ ms.map Lexeme.kind = [.symbol .semiSemi] := by
  induction h with
  | @blank cs h =>
    obtain ⟨ms, hms, hkinds⟩ : Spells [';', ';'] [.symbol .semiSemi] :=
      Spells.nil.symbol .semiSemi (by simp)
    obtain ⟨ms', hms', hkinds'⟩ := (Lexes.blank h).append (by simp) hms
    exact ⟨ms', hms', hkinds'.trans hkinds⟩
  | @token l w ls hl hrest ih =>
    obtain ⟨ms, hms, hkinds⟩ := ih fun k hk => hls k (List.mem_getLast?_cons hk)
    -- Only the last token has the terminator right after it.
    have hbegins : l.Begins (w ++ [';', ';']) := by
      cases w with
      | nil =>
        cases ls with
        | nil => exact hl.semicolon (hls l rfl) [';']
        | cons k ls => exact absurd rfl hrest.ne_nil
      | cons c w => exact ⟨hl.ne, hl.semis, hl.next⟩
    refine ⟨ms, ?_, hkinds⟩
    have htoken := Lexes.token hbegins hms
    simpa using htoken

/-- **A terminator after a text is one more token**, if the text ends as an expression does. -/
theorem Spells.terminated {cs : List Char} {ks : List TokenKind} (h : Spells cs ks)
    (hks : ∀ k ∈ ks.getLast?, k.endsExpr = true) :
    Spells (cs ++ [';', ';']) (ks ++ [.symbol .semiSemi]) := by
  obtain ⟨ls, hls, rfl⟩ := h
  obtain ⟨ms, hms, hkinds⟩ := hls.terminated fun l hl => by
    refine hks l.kind ?_
    rw [List.getLast?_map]
    exact Option.mem_map_of_mem Lexeme.kind hl
  exact ⟨ls ++ ms, hms, by rw [List.map_append, hkinds]⟩

end ContractML

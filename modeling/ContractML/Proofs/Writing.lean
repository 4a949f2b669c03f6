import ContractML.Proofs.Spelling

/-!
# Lexing undoes writing

A text is written token by token, with blanks and comments before each of them. As long as there is
something between two tokens, the lexer gives the tokens back, and each of them stands where it was
written: what the blanks and comments are makes no difference.

## Main definitions

* `CommentBody`, `Trivia` — what may stand inside a comment, and between two tokens.
* `TokenKind.written` — the characters of a token.
* `Piece`, `Piece.write` — a token with the trivia before it, and a text of such tokens.

## Main results

* `CommentBody.skip` — the body of a comment is passed over, however its comments are nested.
* `TokenKind.scanned_written` — each class of tokens is read back before trivia.
* `Piece.lex_write` — **the lexer gives back what was written, where it was written**.
-/

namespace ContractML

open Text (bytes)

/-! ### Blanks and comments -/

/-- A comment with the given body. -/
def Text.comment (body : List Char) : List Char := '(' :: '*' :: (body ++ ['*', ')'])

/-- What may stand inside a comment: comments, and characters that belong to no mark. -/
inductive CommentBody : List Char → Prop where
  | nil : CommentBody []
  | char {c : Char} {cs : List Char} (h : c ∉ ['(', '*', ')']) : CommentBody cs →
    CommentBody (c :: cs)
  | comment {cs ds : List Char} : CommentBody cs → CommentBody ds →
    CommentBody (Text.comment cs ++ ds)

/-- Blanks and complete comments. -/
inductive Trivia : List Char → Prop where
  | nil : Trivia []
  | blank {c : Char} {cs : List Char} (h : Text.isBlank c = true) : Trivia cs → Trivia (c :: cs)
  | comment {cs ds : List Char} : CommentBody cs → Trivia ds → Trivia (Text.comment cs ++ ds)

/-- A character with which trivia can begin. -/
def startsTrivia (c : Char) : Bool := Text.isBlank c || c == '('

theorem bytes_comment (body : List Char) : bytes (Text.comment body) = bytes body + 4 := by
  have h₁ : '('.utf8Size = 1 := by decide
  have h₂ : '*'.utf8Size = 1 := by decide
  have h₃ : ')'.utf8Size = 1 := by decide
  simp only [Text.comment, Text.bytes_cons, Text.bytes_append, Text.bytes_nil, h₁, h₂, h₃]
  omega

/-- **Inside a comment its body is passed over**, whatever follows. -/
theorem CommentBody.skip {cs : List Char} (h : CommentBody cs) (d start : Nat) (ds : List Char)
    (n : Nat) :
    skipTrivia (d + 1) start (cs ++ ds) n = skipTrivia (d + 1) start ds (n + bytes cs) := by
  induction h generalizing d ds n with
  | nil => rfl
  | @char c cs hc _ ih =>
    have hne : c ≠ '(' ∧ c ≠ '*' := by
      simp only [List.mem_cons, not_or] at hc
      exact ⟨hc.1, hc.2.1⟩
    rw [List.cons_append, skipTrivia_inside d start n (fun _ h _ => hne.1 h)
      (fun _ h _ => hne.2 h), ih, Text.bytes_cons, Nat.add_assoc]
  | @comment cs es _ _ ihcs ihes =>
    -- the marks of the inner comment open and close one level
    have hinner : skipTrivia (d + 1) start (Text.comment cs ++ es ++ ds) n =
        skipTrivia (d + 2) start (cs ++ ('*' :: ')' :: (es ++ ds))) (n + 2) := by
      simp only [Text.comment, List.cons_append, List.append_assoc, List.nil_append]
      rfl
    have hclose : skipTrivia (d + 2) start ('*' :: ')' :: (es ++ ds)) (n + 2 + bytes cs) =
        skipTrivia (d + 1) start (es ++ ds) (n + 2 + bytes cs + 2) := rfl
    rw [hinner, ihcs, hclose, ihes, Text.bytes_append, bytes_comment]
    congr 1
    omega

/-- There is no token in a comment. -/
theorem CommentBody.nextToken_eq {cs : List Char} (h : CommentBody cs) (n : Nat) :
    nextToken (Text.comment cs) n = none := by
  have hskip : skipTrivia 0 n (Text.comment cs) n = .ok ⟨[], n + 2 + bytes cs + 2⟩ :=
    (h.skip 0 n ['*', ')'] (n + 2)).trans rfl
  rw [nextToken, hskip]

namespace Trivia

variable {cs : List Char}

/-- There is no token in trivia. -/
theorem nextToken_eq (h : Trivia cs) (n : Nat) : nextToken cs n = none := by
  induction h generalizing n with
  | nil => rfl
  | @blank c cs hc _ ih => exact (nextToken_append (nextToken_blank hc) cs n).trans (ih _)
  | @comment cs ds hcs _ ih => rw [nextToken_append hcs.nextToken_eq, ih]

theorem startsTrivia_of_head? (h : Trivia cs) : ∀ d ∈ cs.head?, startsTrivia d = true := by
  cases h with
  | nil => exact nofun
  | blank hc _ =>
    rintro d ⟨⟩
    rw [startsTrivia, hc, Bool.true_or]
  | comment _ _ =>
    rintro d ⟨⟩
    rfl

end Trivia

/-! ### Tokens -/

/-- The character, with a backslash before it if it is one of the marks. -/
def Text.guarded (marks : List Char) (c : Char) : List Char :=
  if c ∈ marks then ['\\', c] else [c]

theorem Text.guarded_cases {marks : List Char} (h : ∀ c ∈ marks, unescape c = c) (c : Char) :
    (guarded marks c = [c] ∧ c ∉ marks) ∨ ∃ d, guarded marks c = ['\\', d] ∧ unescape d = c := by
  by_cases hc : c ∈ marks
  · exact .inr ⟨c, if_pos hc, h c hc⟩
  · exact .inl ⟨if_neg hc, hc⟩

namespace TokenKind

/-- How a token is written. -/
def written : TokenKind → List Char
  | symbol s => s.spelling.toList
  | keyword k => k.spelling.toList
  | ident x => x.toList
  | int n => (toString n).toList
  | char c => '\'' :: (Text.guarded ['\\'] c ++ ['\''])
  | str s => '"' :: (s.toList.flatMap (Text.guarded ['\\', '"']) ++ ['"'])
  | float _ | faulty _ => []

/-- The tokens that can be written: no floating point numbers and no faulty text; only names as
names, and no negative numbers. -/
def isWritable : TokenKind → Bool
  | ident x => isName x
  | int n => 0 ≤ n.toInt
  | float _ | faulty _ => false
  | _ => true

end TokenKind

/-! What trivia begins with makes no token longer. -/

theorem continuesWord_of_startsTrivia {d : Char} (h : startsTrivia d = true) :
    continuesWord d = false := by
  refine eq_false_of_ne_true fun hd => ?_
  simp only [continuesWord, Bool.or_eq_true, beq_iff_eq] at hd
  rcases hd with hd | rfl
  · obtain ⟨hsymbol, hblank, -, -⟩ := alphanum_facts hd
    rw [startsTrivia, hblank, Bool.false_or, beq_iff_eq] at h
    rw [h] at hsymbol
    cases hsymbol
  · exact absurd h (by decide)

theorem isDigit_of_startsTrivia {d : Char} (h : startsTrivia d = true) :
    d.isDigit = false ∧ d ≠ '_' ∧ d ≠ '.' := by
  have hword := continuesWord_of_startsTrivia h
  simp only [continuesWord, Char.isAlphanum, Bool.or_eq_false_iff, beq_eq_false_iff_ne] at hword
  refine ⟨hword.1.1.2, hword.1.2, ?_⟩
  rintro rfl
  exact absurd h (by decide)

theorem Symbol.breaks_of_startsTrivia {d : Char} (h : startsTrivia d = true) (s : Symbol) :
    s.breaks d = true := by
  have htwo : ∀ c, ofTwo? c d = none := by
    intro c
    unfold ofTwo?
    split <;> first | rfl | exact absurd h (by decide)
  have hstar : (d == '*') = false := by
    refine beq_false_of_ne ?_
    rintro rfl
    exact absurd h (by decide)
  unfold breaks
  split
  · simp [htwo, hstar]
  · rfl

/-- **Each class of tokens is read back before trivia**, and at the end of a text. -/
theorem TokenKind.scanned_written {k : TokenKind} {w : List Char} (hk : k.isWritable = true)
    (hw : ∀ d ∈ w.head?, startsTrivia d = true) : Scanned k.written w k := by
  cases k with
  | symbol s => exact s.scanned fun d hd => Symbol.breaks_of_startsTrivia (hw d hd) s
  | keyword k => exact k.scanned fun d hd => continuesWord_of_startsTrivia (hw d hd)
  | ident x => exact scanned_name hk fun d hd => continuesWord_of_startsTrivia (hw d hd)
  | int n => exact scanned_int (of_decide_eq_true hk) fun d hd => isDigit_of_startsTrivia (hw d hd)
  | char c =>
    refine scanned_char w ((Text.guarded_cases (by simp [unescape]) c).imp_left fun h => ⟨h.1, ?_⟩)
    simpa using h.2
  | str s =>
    refine scanned_str w fun c _ => ?_
    refine (Text.guarded_cases (by simp [unescape]) c).imp_left fun h => ⟨h.1, ?_⟩
    simpa using h.2
  | float x => cases hk
  | faulty f => cases hk

/-- A token after trivia is the first one of its text. -/
theorem Scanned.begins {u w gap : List Char} {k : TokenKind} (h : Scanned u w k)
    (hgap : Trivia gap) : Lexeme.Begins ⟨gap, u, k⟩ w := by
  obtain ⟨c, v, m, rfl, hblank, hopen, hscan⟩ := h
  obtain ⟨v', w', k', hsplit, hsemis, hrun⟩ := scanToken_run c (v ++ w)
  -- the two scans are one, so they take the same characters
  rw [hsplit, hrun w' 0 (.inl rfl)] at hscan
  obtain ⟨rfl, hcursor⟩ := Prod.mk.inj hscan
  obtain ⟨rfl, -⟩ := Cursor.mk.inj hcursor
  obtain rfl := List.append_cancel_right hsplit
  have hfirst : Lexeme.Begins ⟨[], c :: v, k'⟩ w' := by
    refine ⟨List.cons_ne_nil c v, hsemis, fun x n hx => ?_⟩
    have hmark : ∀ ds, c = '(' → v ++ x = '*' :: ds → False := by
      rcases hx with hx | hk
      · exact no_mark_of_head? hopen (head?_append_congr hx)
      · rintro ds rfl -
        cases hsemis hk
    rw [List.nil_append, List.cons_append, nextToken_cons hblank hmark, hrun x n hx]
    simp [Lexeme.token, Lexeme.size]
  have hafter := hfirst.after hgap.nextToken_eq
  rwa [Lexeme.after, List.append_nil] at hafter

/-! ### Texts -/

/-- A token with the trivia before it. -/
structure Piece where
  gap : List Char
  kind : TokenKind
  trivia : Trivia gap
  writable : kind.isWritable = true

namespace Piece

/-- The characters of a token and of the trivia before it. -/
def text (p : Piece) : List Char := p.gap ++ p.kind.written

/-- The characters of tokens, one after the other. -/
def texts (ps : List Piece) : List Char := ps.flatMap text

/-- The text of the tokens, with trivia after them. -/
def write (ps : List Piece) (tail : List Char) : String := String.ofList (texts ps ++ tail)

/-- The token and the trivia as the lexer reads them. -/
def lexeme (p : Piece) : Lexeme := ⟨p.gap, p.kind.written, p.kind⟩

theorem texts_cons (p : Piece) (ps : List Piece) :
    texts (p :: ps) = p.gap ++ (p.kind.written ++ texts ps) := by
  rw [texts, List.flatMap_cons, text, List.append_assoc]
  rfl

theorem extent_lexemes (ps : List Piece) : Lexeme.extent (ps.map lexeme) = bytes (texts ps) := by
  induction ps with
  | nil => rfl
  | cons p ps ih =>
    rw [List.map_cons, Lexeme.extent_cons, ih, texts_cons]
    simp [lexeme, Lexeme.size, Nat.add_assoc]

/-- After a token there is trivia, or the text ends. -/
theorem startsTrivia_texts {ps : List Piece} {tail : List Char} (hps : ∀ p ∈ ps, p.gap ≠ [])
    (htail : Trivia tail) : ∀ d ∈ (texts ps ++ tail).head?, startsTrivia d = true := by
  cases ps with
  | nil => exact htail.startsTrivia_of_head?
  | cons p ps =>
    obtain ⟨c, cs, hgap⟩ := List.exists_cons_of_ne_nil (hps p List.mem_cons_self)
    have hhead := p.trivia.startsTrivia_of_head?
    rw [hgap] at hhead
    rw [texts_cons, hgap]
    exact hhead

theorem lexes_texts {ps : List Piece} {tail : List Char} (hps : ∀ p ∈ ps.tail, p.gap ≠ [])
    (htail : Trivia tail) : Lexes (texts ps ++ tail) (ps.map lexeme) := by
  induction ps with
  | nil => exact .blank htail.nextToken_eq
  | cons p ps ih =>
    have hrest := ih fun q hq => hps q (List.mem_of_mem_tail hq)
    have hscanned := TokenKind.scanned_written p.writable (startsTrivia_texts hps htail)
    have htoken := Lexes.token (hscanned.begins p.trivia) hrest
    rw [texts_cons, List.append_assoc, List.append_assoc]
    exact htoken

/-- **The lexer gives back what was written, where it was written.** In a text of tokens with
trivia between each two of them, and possibly at both ends, the lexer finds the tokens, whatever the
trivia are. Each token stands where its characters are. -/
theorem lex_write (ps : List Piece) (tail : List Char) (hps : ∀ p ∈ ps.tail, p.gap ≠ [])
    (htail : Trivia tail) :
    (lex (write ps tail)).map Token.kind = ps.map Piece.kind ∧
      ∀ before p after, ps = before ++ p :: after →
        (lex (write ps tail))[before.length]? = some ⟨p.kind,
          ⟨bytes (texts before ++ p.gap), bytes (texts before ++ p.gap ++ p.kind.written)⟩⟩ := by
  have hlex : lex (write ps tail) = Lexeme.tokens 0 (ps.map lexeme) :=
    (lexes_texts hps htail).lex_ofList
  constructor
  · rw [hlex, Lexeme.kind_tokens, List.map_map]
    rfl
  · rintro before p after rfl
    rw [hlex, List.map_append, List.map_cons, Lexeme.tokens_append, Nat.zero_add, extent_lexemes]
    rw [List.getElem?_append_right (by simp)]
    simp [Lexeme.token, lexeme, Lexeme.size]

/-- A name that ends with a mark before a nested comment, a symbol that a comment follows, and
quoted marks. -/
theorem lex_write_nested_comment :
    let source := "x'(* é (**) *)((**)''' \"\\\"\\\\\"\n42 "
    (lex source).map Token.kind =
        [.ident "x'", .symbol .lparen, .char '\'', .str "\"\\", .int 42] ∧
      (lex source)[3]? = some ⟨.str "\"\\", ⟨24, 30⟩⟩ := by
  intro source
  let before : List Piece := [⟨[], .ident "x'", .nil, by decide⟩,
    ⟨Text.comment (' ' :: 'é' :: ' ' :: (Text.comment [] ++ [' '])) ++ [], .symbol .lparen,
      .comment (.char (by decide) (.char (by decide) (.char (by decide)
        (.comment .nil (.char (by decide) .nil))))) .nil, rfl⟩,
    ⟨Text.comment [] ++ [], .char '\'', .comment .nil .nil, rfl⟩]
  let quoted : Piece := ⟨[' '], .str "\"\\", .blank rfl .nil, rfl⟩
  let after : List Piece := [⟨['\n'], .int 42, .blank rfl .nil, by decide⟩]
  have hgaps : ∀ p ∈ (before ++ quoted :: after).tail, p.gap ≠ [] := by
    simp [before, quoted, after, Text.comment]
  have hlex := lex_write (before ++ quoted :: after) [' '] hgaps (.blank rfl .nil)
  have hwrite : write (before ++ quoted :: after) [' '] = source := by decide +kernel
  have hspan : Span.mk (bytes (texts before ++ quoted.gap))
      (bytes (texts before ++ quoted.gap ++ quoted.kind.written)) = ⟨24, 30⟩ := by decide +kernel
  rw [hwrite] at hlex
  exact ⟨hlex.1, hspan ▸ hlex.2 before quoted after rfl⟩

end Piece

end ContractML

import ContractML.Proofs.Batches

/-!
# How tokens are spelled

What the lexer reads from a text that was put together from tokens: symbols, reserved words, names,
numbers, and quoted characters and strings. The first token is read back if the character after it
does not make it longer. Two tokens can stand side by side without a blank if the second one does
not begin with such a character, and a blank never makes a token longer.

## Main definitions

* `Scanned` — characters that are read as one token.
* `Spells` — a text that consists of tokens of the given kinds.
* `Symbol.breaks` — the characters that may follow a symbol.
* `isName` — the texts that are names.
* `Text.isLegible` — the characters that are written as they are or by a short escape.
* `Operator.kind`, `UnaryOp.kind` — the tokens of operators.
* `TokenKind.WrittenAs` — how a token is written before a space.

## Main results

* `Symbol.scanned`, `scanned_word`, `scanned_int`, `scanned_char`, `scanned_str` — one lemma for
  each class of tokens.
* `Spells.kind_lex` — the lexer gives the tokens that a text consists of.
* `Spells.blank`, `Spells.symbol`, `Spells.word`, `Spells.int`, `Spells.char`, `Spells.str` — **what
  is written in front of a text is read in front of its tokens**.
-/

namespace ContractML

/-- The text consists of tokens of the given kinds, with blanks and comments around them. -/
def Spells (cs : List Char) (ks : List TokenKind) : Prop :=
  ∃ ls, Lexes cs ls ∧ ls.map Lexeme.kind = ks

/-! ### The first token -/

/-- A character that is no blank and opens no comment begins a token. -/
theorem nextToken_cons {c : Char} {cs : List Char} (hblank : Text.isBlank c = false)
    (hopen : ∀ ds, c = '(' → cs = '*' :: ds → False) (n : Nat) :
    nextToken (c :: cs) n = some (⟨(scanToken c cs n).1, ⟨n, (scanToken c cs n).2.offset⟩⟩,
      (scanToken c cs n).2) := by
  rw [nextToken, skipTrivia_outside n n hopen, hblank]
  rfl

theorem nextToken_blank {c : Char} (h : Text.isBlank c = true) (n : Nat) :
    nextToken [c] n = none := by
  rw [nextToken, skipTrivia_outside n n (no_mark_of_isBlank h []), if_pos h]
  rfl

/-- The characters `u` before the text `w` are read as one token, of the kind `k`. -/
def Scanned (u w : List Char) (k : TokenKind) : Prop :=
  ∃ c v m, u = c :: v ∧ Text.isBlank c = false ∧ (∀ ds, c = '(' → v ++ w = '*' :: ds → False) ∧
    scanToken c (v ++ w) 0 = (k, ⟨w, m⟩)

namespace Spells

variable {cs w : List Char} {ks : List TokenKind}

theorem kind_lex {source : String} (h : Spells source.toList ks) :
    (lex source).map Token.kind = ks := by
  obtain ⟨ls, hls, hkinds⟩ := h
  rw [hls.lex_eq, Lexeme.kind_tokens, hkinds]

theorem nil : Spells [] [] := ⟨[], Lexes.nil, rfl⟩

/-- What the lexer reads first is the first token. -/
theorem of_nextToken {t : Token} {m : Nat} (h : nextToken cs 0 = some (t, ⟨w, m⟩))
    (hw : Spells w ks) : Spells cs (t.kind :: ks) := by
  obtain ⟨ls, hls, hkinds⟩ := hw
  rcases exists_begins cs with hnone | ⟨l, w', rfl, hl⟩
  · rw [hnone] at h
    cases h
  · -- The lexeme that begins the text is the token that was read, and leaves the same rest.
    have hnext := hl.next w' 0 (.inl rfl)
    rw [h] at hnext
    obtain ⟨rfl, hcursor⟩ := Prod.mk.inj (Option.some.inj hnext)
    obtain ⟨rfl, -⟩ := Cursor.mk.inj hcursor
    exact ⟨l :: ls, .token hl hls, by rw [List.map_cons, hkinds]; rfl⟩

theorem scan {u : List Char} {k : TokenKind} (hu : Scanned u w k) (hw : Spells w ks) :
    Spells (u ++ w) (k :: ks) := by
  obtain ⟨c, v, m, rfl, hblank, hopen, hscan⟩ := hu
  refine of_nextToken (t := ⟨k, ⟨0, m⟩⟩) (m := m) ?_ hw
  rw [List.cons_append, nextToken_cons hblank hopen, hscan]

/-- A blank in front changes nothing. -/
theorem blank {c : Char} (hc : Text.isBlank c = true) (h : Spells cs ks) : Spells (c :: cs) ks := by
  obtain ⟨ls, hls, hkinds⟩ := h
  obtain ⟨ms, hms, hmkinds⟩ := (Lexes.blank (nextToken_blank hc)).append (by simp) hls
  exact ⟨ms, hms, hmkinds.trans hkinds⟩

theorem space (h : Spells cs ks) : Spells (' ' :: cs) ks := h.blank rfl

end Spells

/-! ### Symbols -/

/-- Whether a character does not make a symbol in front of it longer, or a comment. -/
def Symbol.breaks (s : Symbol) (d : Char) : Bool :=
  match s.spelling.toList with
  | [c] => (ofTwo? c d).isNone && !(c == '(' && d == '*')
  | _ => true

/-- A blank makes no symbol longer. -/
theorem Symbol.breaks_space (s : Symbol) : s.breaks ' ' = true := by
  cases s <;> decide

/-- A symbol is spelled by the one or two characters by which the lexer knows it. -/
theorem Symbol.spelling_cases (s : Symbol) :
    (∃ c, s.spelling.toList = [c] ∧ ofOne? c = some s ∧ Text.isBlank c = false) ∨
      ∃ c d, s.spelling.toList = [c, d] ∧ ofTwo? c d = some s ∧ Text.isBlank c = false ∧
        c ≠ '(' := by
  cases s <;> first
    | exact .inl ⟨_, rfl, rfl, rfl⟩
    | exact .inr ⟨_, _, rfl, rfl, rfl, by decide⟩

theorem Symbol.scanned {w : List Char} (s : Symbol) (hw : ∀ d ∈ w.head?, s.breaks d = true) :
    Scanned s.spelling.toList w (.symbol s) := by
  rcases s.spelling_cases with ⟨c, hs, hone, hblank⟩ | ⟨c, d, hs, htwo, hblank, hc⟩
  · -- The lexer tries two characters first, and an opening parenthesis may begin a comment.
    have hnext : ∀ d ∈ w.head?, Symbol.ofTwo? c d = none ∧ (c ≠ '(' ∨ d ≠ '*') := by
      intro d hd
      have hbreaks := hw d hd
      simpa [Symbol.breaks, hs] using hbreaks
    have htwo : w.head?.bind (Symbol.ofTwo? c) = none := by
      rw [Option.bind_eq_none_iff]
      exact fun d hd => (hnext d hd).1
    refine ⟨c, [], 1, hs, hblank, ?_, by simp [scanToken, htwo, hone]⟩
    rintro ds rfl rfl
    exact (hnext '*' rfl).2.elim (fun h => h rfl) fun h => h rfl
  · exact ⟨c, [d], 2, hs, hblank, fun _ hc' _ => hc hc', by simp [scanToken, htwo]⟩

theorem Spells.symbol {w : List Char} {ks : List TokenKind} (s : Symbol)
    (hw : ∀ d ∈ w.head?, s.breaks d = true) (h : Spells w ks) :
    Spells (s.spelling.toList ++ w) (.symbol s :: ks) :=
  h.scan (s.scanned hw)

/-- The characters that symbols begin with. -/
def startsSymbol (c : Char) : Bool := "()&;+-*/^=<>!|".toList.contains c

/-- Another character begins no symbol. -/
theorem no_symbol {c : Char} (h : startsSymbol c = false) :
    Symbol.ofOne? c = none ∧ ∀ d, Symbol.ofTwo? c d = none := by
  constructor
  · unfold Symbol.ofOne?
    split <;> first | rfl | exact absurd h (by decide)
  · intro d
    unfold Symbol.ofTwo?
    split <;> first | rfl | exact absurd h (by decide)

/-- A token that is no symbol is read by the scanner of its first character. -/
theorem scanToken_no_symbol {c : Char} (h : startsSymbol c = false) (cs : List Char) (n : Nat) :
    scanToken c cs n =
      if c == '"' then scanString [] cs (n + 1)
      else if c == '\'' then scanChar cs (n + 1)
      else if c.isDigit then scanNumber c cs (n + 1)
      else if beginsWord c then scanWord c cs (n + 1)
      else (.faulty (.unexpectedChar c), ⟨cs, n + c.utf8Size⟩) := by
  obtain ⟨hone, htwo⟩ := no_symbol h
  have hbind : cs.head?.bind (Symbol.ofTwo? c) = none := by
    rw [Option.bind_eq_none_iff]
    exact fun d _ => htwo d
  rw [scanToken, hbind, hone]
  rfl

/-! ### Words -/

/-- A word: a name or a reserved word. -/
def isWord (u : List Char) : Bool := u.head?.any beginsWord && u.all continuesWord

/-- Whether a text is a name: a word that is not reserved. -/
def isName (s : String) : Bool := isWord s.toList && (Keyword.ofSpelling? s).isNone

theorem Keyword.isWord_spelling (k : Keyword) : isWord k.spelling.toList = true := by
  cases k <;> decide

theorem wordKind_spelling (k : Keyword) : wordKind k.spelling = .keyword k := by
  rw [wordKind, k.ofSpelling?_spelling]

theorem wordKind_of_isName {s : String} (h : isName s = true) : wordKind s = .ident s := by
  rw [isName, Bool.and_eq_true, Option.isNone_iff_eq_none] at h
  rw [wordKind, h.2]

/-- The first character of a word or a number begins no other token, and is no blank. -/
theorem alphanum_facts {c : Char} (h : c.isAlphanum = true ∨ c = '_') :
    startsSymbol c = false ∧ Text.isBlank c = false ∧ c ≠ '"' ∧ c ≠ '\'' := by
  -- The characters of words and numbers are four ranges of codes, and all marks, blanks and symbols
  -- lie outside of them.
  have hrange : (48 ≤ c.toNat ∧ c.toNat ≤ 57) ∨ (65 ≤ c.toNat ∧ c.toNat ≤ 90) ∨ c.toNat = 95 ∨
      (97 ≤ c.toNat ∧ c.toNat ≤ 122) := by
    simp only [Char.isAlphanum, Bool.or_eq_true, isAlpha_iff, isDigit_iff] at h
    rcases h with ((h | h) | h) | h
    · exact .inr (.inl h)
    · exact .inr (.inr (.inr h))
    · exact .inl h
    · exact .inr (.inr (.inl (by rw [h]; rfl)))
  have hne : ∀ d : Char, d.toNat < 48 ∨ (57 < d.toNat ∧ d.toNat < 65) ∨
      (90 < d.toNat ∧ d.toNat < 95) ∨ 122 < d.toNat → c ≠ d := by
    rintro d hd rfl
    omega
  refine ⟨?_, ?_, hne _ (by decide), hne _ (by decide)⟩
  · have hrest : "()&;+-*/^=<>!|".toList.all (fun d => decide (d.toNat < 48 ∨
        (57 < d.toNat ∧ d.toNat < 65) ∨ (90 < d.toNat ∧ d.toNat < 95) ∨ 122 < d.toNat)) = true := by
      decide
    rw [startsSymbol, List.contains_eq_any_beq, List.any_eq_false]
    intro d hd
    have hd' := of_decide_eq_true (List.all_eq_true.mp hrest d hd)
    simpa using hne d hd'
  · simp only [Text.isBlank, Bool.or_eq_false_iff, Bool.and_eq_false_iff, decide_eq_false_iff_not,
      beq_eq_false_iff_ne]
    omega

theorem isDigit_of_beginsWord {c : Char} (h : beginsWord c = true) : c.isDigit = false := by
  simp only [beginsWord, Bool.or_eq_true, isAlpha_iff, beq_iff_eq] at h
  rw [Bool.eq_false_iff, ne_eq, isDigit_iff]
  rcases h with (h | h) | rfl
  · omega
  · omega
  · decide

theorem scanned_word {u w : List Char} (hu : isWord u = true)
    (hw : ∀ d ∈ w.head?, continuesWord d = false) :
    Scanned u w (wordKind (String.ofList u)) := by
  cases u with
  | nil => cases hu
  | cons c u =>
    rw [isWord, Bool.and_eq_true, List.head?_cons, Option.any_some, List.all_cons,
      Bool.and_eq_true, List.all_eq_true] at hu
    obtain ⟨hc, -, hu⟩ := hu
    -- The scanner of words is the last one to be tried, so the first character has to pass all
    -- others.
    have halphanum : c.isAlphanum = true ∨ c = '_' := by
      simp only [beginsWord, Bool.or_eq_true, beq_iff_eq] at hc
      exact hc.imp_left fun hc => by simp [Char.isAlphanum, hc]
    obtain ⟨hsymbol, hblank, hquote, hmark⟩ := alphanum_facts halphanum
    have hdigit := isDigit_of_beginsWord hc
    obtain ⟨htake, hdrop⟩ := takeWhile_append_of_head? hu fun d hd => hw d hd
    refine ⟨c, u, 1 + u.length, rfl, hblank, ?_, ?_⟩
    · rintro ds rfl -
      cases hsymbol
    · rw [scanToken_no_symbol hsymbol]
      simp [hquote, hmark, hdigit, hc, scanWord, htake, hdrop]

theorem Keyword.scanned {w : List Char} (k : Keyword)
    (hw : ∀ d ∈ w.head?, continuesWord d = false) :
    Scanned k.spelling.toList w (.keyword k) := by
  have hword := scanned_word k.isWord_spelling hw
  rwa [String.ofList_toList, wordKind_spelling] at hword

theorem scanned_name {w : List Char} {x : String} (hx : isName x = true)
    (hw : ∀ d ∈ w.head?, continuesWord d = false) : Scanned x.toList w (.ident x) := by
  have hword := scanned_word (Bool.and_eq_true_iff.mp hx).1 hw
  rwa [String.ofList_toList, wordKind_of_isName hx] at hword

theorem Spells.keyword {w : List Char} {ks : List TokenKind} (k : Keyword)
    (hw : ∀ d ∈ w.head?, continuesWord d = false) (h : Spells w ks) :
    Spells (k.spelling.toList ++ w) (.keyword k :: ks) :=
  h.scan (k.scanned hw)

theorem Spells.name {w : List Char} {ks : List TokenKind} {x : String} (hx : isName x = true)
    (hw : ∀ d ∈ w.head?, continuesWord d = false) (h : Spells w ks) :
    Spells (x.toList ++ w) (.ident x :: ks) :=
  h.scan (scanned_name hx hw)

/-! ### Numbers -/

/-- Digits are read up to a character that belongs to no number. -/
theorem scanNumeral_digits {u w : List Char} (hu : ∀ c ∈ u, c.isDigit = true)
    (hw : ∀ d ∈ w.head?, d.isDigit = false ∧ d ≠ '_' ∧ d ≠ '.') (digits : List Char) (n : Nat) :
    scanNumeral ⟨digits, none⟩ (u ++ w) n = (⟨u.reverse ++ digits, none⟩, ⟨w, n + u.length⟩) := by
  induction u generalizing digits n with
  | nil =>
    -- After the digits comes a character that ends the number, or nothing.
    cases w with
    | nil => rfl
    | cons d w =>
      obtain ⟨hdigit, hline, hpoint⟩ := hw d rfl
      simp [scanNumeral, hdigit, hline, hpoint]
  | cons c u ih =>
    rw [List.forall_mem_cons] at hu
    have hpush : (Numeral.mk digits none).push c = ⟨c :: digits, none⟩ := rfl
    rw [List.cons_append, scanNumeral, if_pos hu.1, hpush, ih hu.2]
    simp [Nat.add_assoc, Nat.add_comm 1]

/-- An integer that is not negative is written by its digits. -/
theorem Int64.toList_toString {n : Int64} (h : 0 ≤ n.toInt) :
    (toString n).toList = Nat.toDigits 10 n.toInt.toNat := by
  have hn : n.toInt = Int.ofNat n.toInt.toNat := (Int.toNat_of_nonneg h).symm
  change (toString n.toInt).toList = _
  rw [hn]
  exact Nat.toList_repr

theorem scanned_int {w : List Char} {n : Int64} (hn : 0 ≤ n.toInt)
    (hw : ∀ d ∈ w.head?, d.isDigit = false ∧ d ≠ '_' ∧ d ≠ '.') :
    Scanned (toString n).toList w (.int n) := by
  have hdigits : ∀ c ∈ Nat.toDigits 10 n.toInt.toNat, c.isDigit = true := fun c hc =>
    Nat.isDigit_of_mem_toDigits (by decide) (by decide) hc
  have hvalue : Nat.ofDigitChars 10 (Nat.toDigits 10 n.toInt.toNat) 0 = n.toInt.toNat :=
    Nat.ofDigitChars_ten_toDigits
  -- The numeral is read as a natural number, which has to be in range to be a literal.
  have hlt : n.toInt.toNat < Nat.pow 2 63 := by
    have hmax := n.toInt_lt
    have hpow : Nat.pow 2 63 = 9223372036854775808 := rfl
    omega
  rw [Int64.toList_toString hn]
  cases hu : Nat.toDigits 10 n.toInt.toNat with
  | nil => exact absurd hu (Nat.toDigits_ne_nil)
  | cons c u =>
    rw [hu] at hdigits hvalue
    rw [List.forall_mem_cons] at hdigits
    have halphanum : c.isAlphanum = true := by simp [Char.isAlphanum, hdigits.1]
    obtain ⟨hsymbol, hblank, hquote, hmark⟩ := alphanum_facts (.inl halphanum)
    have hread := scanNumeral_digits hdigits.2 hw [c] 1
    have hkind : (Numeral.mk (u.reverse ++ [c]) none).toKind = .int n := by
      -- The digits are collected the last one first, and put in order again to be read off.
      have hnat : (Numeral.mk (u.reverse ++ [c]) none).toNat = n.toInt.toNat := by
        rw [Numeral.toNat, List.reverse_append, List.reverse_reverse]
        exact hvalue
      rw [Numeral.toKind]
      dsimp only
      rw [hnat, if_pos hlt]
      congr 1
      rw [← Int64.ofInt_eq_ofNat, Int.toNat_of_nonneg hn]
      exact Int64.ofInt_toInt n
    refine ⟨c, u, 1 + u.length, rfl, hblank, ?_, ?_⟩
    · rintro ds rfl -
      cases hsymbol
    · rw [scanToken_no_symbol hsymbol]
      simp [hquote, hmark, hdigits.1, scanNumber, hread, hkind]

theorem Spells.int {w : List Char} {ks : List TokenKind} {n : Int64} (hn : 0 ≤ n.toInt)
    (hw : ∀ d ∈ w.head?, d.isDigit = false ∧ d ≠ '_' ∧ d ≠ '.') (h : Spells w ks) :
    Spells ((toString n).toList ++ w) (.int n :: ks) :=
  h.scan (scanned_int hn hw)

/-! ### Quoted characters and strings -/

/-- A character that is written as it is or by a short escape. -/
def Text.isLegible (c : Char) : Bool :=
  !isHidden c || ['\x00', '\t', '\r', '\n', '\\', '\'', '"'].contains c

/-- How a legible character is written: as it is, or by a backslash and a character that stands for
it. -/
theorem Text.escape_of_isLegible {mark c : Char} (hmark : mark = '\'' ∨ mark = '"')
    (h : isLegible c = true) :
    (escape mark c = [c] ∧ c ≠ '\\' ∧ c ≠ mark) ∨
      ∃ d, escape mark c = ['\\', d] ∧ unescape d = c := by
  unfold escape
  split_ifs with h0 ht hr hn hb hm hh
  · exact .inr ⟨_, rfl, h0.symm⟩
  · exact .inr ⟨_, rfl, ht.symm⟩
  · exact .inr ⟨_, rfl, hr.symm⟩
  · exact .inr ⟨_, rfl, hn.symm⟩
  · exact .inr ⟨_, rfl, hb.symm⟩
  · refine .inr ⟨_, rfl, ?_⟩
    rcases hmark with rfl | rfl <;> rw [hm] <;> rfl
  · -- A hidden character without a short escape is written by its number, but is not legible.
    exfalso
    simp only [isLegible, hh, Bool.not_true, Bool.false_or, List.contains_eq_mem,
      decide_eq_true_eq, List.mem_cons, List.not_mem_nil, or_false] at h
    rcases h with h | h | h | h | h | rfl | rfl
    · exact h0 h
    · exact ht h
    · exact hr h
    · exact hn h
    · exact hb h
    · revert hh
      decide +kernel
    · revert hh
      decide +kernel
  · exact .inl ⟨rfl, hb, hm⟩

/-- A character between its marks; a backslash does not stand for itself. -/
theorem scanned_char {u : List Char} {c : Char} (w : List Char)
    (hu : (u = [c] ∧ c ≠ '\\') ∨ ∃ d, u = ['\\', d] ∧ unescape d = c) :
    Scanned ('\'' :: (u ++ ['\''])) w (.char c) := by
  have hscan : ∃ m, scanChar (u ++ '\'' :: w) 1 = (.char c, ⟨w, m⟩) := by
    rcases hu with ⟨rfl, hb⟩ | ⟨d, rfl, hd⟩
    · -- The scanner tries an escape first, so a character by itself must be no backslash.
      rw [List.singleton_append, scanChar]
      · exact ⟨_, rfl⟩
      · exact fun hc' _ => hb hc'
      · exact fun _ _ hc' _ => hb hc'
    · rw [List.cons_append, List.singleton_append, scanChar, hd]
      exact ⟨_, rfl⟩
  obtain ⟨m, hscan⟩ := hscan
  refine ⟨'\'', u ++ ['\''], m, rfl, rfl, fun _ hc' _ => absurd hc' (by decide), ?_⟩
  rw [scanToken_no_symbol rfl, List.append_assoc, List.singleton_append]
  exact hscan

/-- A string is read up to its closing mark, if each of its characters is written as it is or by an
escape. -/
theorem scanString_encoded {encode : Char → List Char} {s : List Char}
    (hs : ∀ c ∈ s, (encode c = [c] ∧ c ≠ '\\' ∧ c ≠ '"') ∨
      ∃ d, encode c = ['\\', d] ∧ unescape d = c) (acc w : List Char) (n : Nat) :
    ∃ m, scanString acc (s.flatMap encode ++ '"' :: w) n =
      (.str (String.ofList (acc.reverse ++ s)), ⟨w, m⟩) := by
  -- What has been read so far is kept the last character first.
  induction s generalizing acc n with
  | nil =>
    rw [List.flatMap_nil, List.nil_append, scanString, List.append_nil]
    exact ⟨_, rfl⟩
  | cons c s ih =>
    rw [List.forall_mem_cons] at hs
    have hrest : acc.reverse ++ c :: s = (c :: acc).reverse ++ s := by simp
    rw [List.flatMap_cons, List.append_assoc, hrest]
    rcases hs.1 with ⟨hesc, hb, hm⟩ | ⟨d, hesc, hd⟩
    · rw [hesc, List.singleton_append, scanString]
      · exact ih hs.2 (c :: acc) _
      · exact hm
      · exact fun hc' _ => hb hc'
      · exact fun _ _ hc' _ => hb hc'
    · rw [hesc, List.cons_append, List.singleton_append, scanString, hd]
      exact ih hs.2 (c :: acc) _

theorem scanned_str {encode : Char → List Char} {s : String} (w : List Char)
    (hs : ∀ c ∈ s.toList, (encode c = [c] ∧ c ≠ '\\' ∧ c ≠ '"') ∨
      ∃ d, encode c = ['\\', d] ∧ unescape d = c) :
    Scanned ('"' :: (s.toList.flatMap encode ++ ['"'])) w (.str s) := by
  obtain ⟨m, hscan⟩ := scanString_encoded hs [] w 1
  rw [List.reverse_nil, List.nil_append, String.ofList_toList] at hscan
  refine ⟨'"', _, m, rfl, rfl, fun _ hc' _ => absurd hc' (by decide), ?_⟩
  rw [scanToken_no_symbol rfl, List.append_assoc, List.singleton_append]
  exact hscan

theorem Spells.char {w : List Char} {ks : List TokenKind} {c : Char}
    (hc : Text.isLegible c = true) (h : Spells w ks) :
    Spells ((Text.quoteChar c).toList ++ w) (.char c :: ks) := by
  rw [Text.quoteChar, String.toList_ofList]
  refine h.scan (scanned_char w ?_)
  exact (Text.escape_of_isLegible (.inl rfl) hc).imp_left fun h => ⟨h.1, h.2.1⟩

theorem Spells.str {w : List Char} {ks : List TokenKind} {s : String}
    (hs : ∀ c ∈ s.toList, Text.isLegible c = true) (h : Spells w ks) :
    Spells ((Text.quoteString s).toList ++ w) (.str s :: ks) := by
  rw [Text.quoteString, String.toList_ofList]
  exact h.scan (scanned_str w fun c hc => Text.escape_of_isLegible (.inr rfl) (hs c hc))

/-! ### Operators -/

namespace Operator

/-- How an operator between two operands is written. -/
def symbol : Operator → String
  | binary op => op.symbol
  | logical op => op.symbol

/-- The token of an operator between two operands. -/
def kind : Operator → TokenKind
  | logical .or => .symbol .orOr
  | logical .and => .symbol .andAnd
  | binary .eq => .symbol .eq
  | binary .ne => .symbol .ltGt
  | binary .same => .symbol .eqEq
  | binary .differs => .symbol .bangEq
  | binary .lt => .symbol .lt
  | binary .le => .symbol .le
  | binary .gt => .symbol .gt
  | binary .ge => .symbol .ge
  | binary .concat => .symbol .caret
  | binary .add => .symbol .plus
  | binary .sub => .symbol .minus
  | binary .fadd => .symbol .plusDot
  | binary .fsub => .symbol .minusDot
  | binary .mul => .symbol .star
  | binary .div => .symbol .slash
  | binary .mod => .keyword .kwMod
  | binary .fmul => .symbol .starDot
  | binary .fdiv => .symbol .slashDot
  | binary .pow => .symbol .starStar

/-- The parser knows an operator by its token. -/
@[simp] theorem ofKind?_kind (o : Operator) : ofKind? o.kind = some o := by
  rcases o with op | op <;> cases op <;> rfl

/-- An operator begins no argument of a call. -/
theorem startsAtom_kind (o : Operator) : o.kind.startsAtom = false := by
  rcases o with op | op <;> cases op <;> rfl

/-- The token of an operator is a symbol or a reserved word, and is written as the operator. -/
theorem kind_cases (o : Operator) :
    (∃ s, o.kind = .symbol s ∧ o.symbol = s.spelling) ∨
      ∃ k, o.kind = .keyword k ∧ o.symbol = k.spelling := by
  rcases o with op | op <;> cases op <;> first
    | exact .inl ⟨_, rfl, rfl⟩
    | exact .inr ⟨_, rfl, rfl⟩

end Operator

/-- The token of an operator before its operand. -/
def UnaryOp.kind : UnaryOp → TokenKind
  | neg => .symbol .minus
  | not => .keyword .kwNot

/-! ### Tokens before a space -/

/-- The token is written as the word, before a space or at the end of a text. -/
def TokenKind.WrittenAs (k : TokenKind) (u : String) : Prop :=
  ∀ (cs : List Char) (ks : List TokenKind), (∀ c ∈ cs.head?, c = ' ') → Spells cs ks →
    Spells (u.toList ++ cs) (k :: ks)

theorem TokenKind.WrittenAs.space {k : TokenKind} {u : String} (hk : k.WrittenAs u)
    {cs : List Char} {ks : List TokenKind} (h : Spells cs ks) :
    Spells (u.toList ++ ' ' :: cs) (k :: ks) := by
  refine hk _ ks ?_ h.space
  rintro c ⟨⟩
  rfl

theorem Symbol.writtenAs (s : Symbol) : (TokenKind.symbol s).WrittenAs s.spelling :=
  fun _ _ hcs h => h.symbol s fun c hc => hcs c hc ▸ s.breaks_space

theorem Keyword.writtenAs (k : Keyword) : (TokenKind.keyword k).WrittenAs k.spelling :=
  fun _ _ hcs h => h.keyword k fun c hc => hcs c hc ▸ rfl

theorem writtenAs_of_isName {x : String} (hx : isName x = true) :
    (TokenKind.ident x).WrittenAs x :=
  fun _ _ hcs h => h.name hx fun c hc => hcs c hc ▸ rfl

theorem Operator.writtenAs (o : Operator) : o.kind.WrittenAs o.symbol := by
  rcases o.kind_cases with ⟨s, hkind, hsymbol⟩ | ⟨k, hkind, hsymbol⟩
  · rw [hkind, hsymbol]
    exact s.writtenAs
  · rw [hkind, hsymbol]
    exact k.writtenAs

end ContractML

import Mathlib.Algebra.GroupWithZero.Nat
import ContractML.Proofs.Streams

/-!
# Texts as sequences of lexemes

A lexeme is a token with its characters and the blanks and comments before it, without a position.
Every text is a sequence of lexemes and some blanks and comments after them. Which lexemes these are
does not depend on where the text stands. Nor does it depend on what follows a lexeme, beyond the
next character; after a terminator not even that matters, so a text can be cut there.

## Main definitions

* `Text.bytes` — the length of a text in bytes.
* `Skips` — the four ways in which skipping blanks and comments can end.
* `nextToken` — the first token of a text.
* `Lexeme`, `Lexes`, `Lexeme.tokens` — lexemes, the lexemes of a text, and their tokens.

## Main results

* `exists_lexes` — every text has lexemes.
* `Lexes.lex_eq` — the tokens of a text are those of its lexemes.
* `Lexes.cut` — **a text can be cut after a terminator**.
* `Lexes.start_of_mem` — every token begins within its text.
-/

namespace ContractML

/-- The number of bytes in the UTF-8 encoding of a text. -/
def Text.bytes (cs : List Char) : Nat := (cs.map Char.utf8Size).sum

namespace Text

@[simp] theorem bytes_nil : bytes [] = 0 := rfl

@[simp] theorem bytes_cons (c : Char) (cs : List Char) :
    bytes (c :: cs) = c.utf8Size + bytes cs := rfl

@[simp] theorem bytes_append (cs ds : List Char) : bytes (cs ++ ds) = bytes cs + bytes ds := by
  simp [bytes]

theorem bytes_pos {cs : List Char} (h : cs ≠ []) : 0 < bytes cs := by
  cases cs with
  | nil => exact absurd rfl h
  | cons c cs =>
    have hc := c.utf8Size_pos
    rw [bytes_cons]
    omega

theorem utf8ByteSize_ofList (cs : List Char) : (String.ofList cs).utf8ByteSize = bytes cs := by
  induction cs with
  | nil => rfl
  | cons c cs ih => rw [String.ofList_cons, String.utf8ByteSize_append, ih]; simp

theorem bytes_toList (s : String) : bytes s.toList = s.utf8ByteSize := by
  rw [← utf8ByteSize_ofList, String.ofList_toList]

end Text

open Text (bytes)

theorem utf8Size_eq_one {c : Char} (h : c.toNat ≤ 127) : c.utf8Size = 1 :=
  Char.utf8Size_eq_one_iff.mpr h

/-- A text with the same first character after the same beginning. -/
theorem head?_append_congr {u w w' : List Char} (h : w'.head? = w.head?) :
    (u ++ w').head? = (u ++ w).head? := by
  cases u with
  | nil => exact h
  | cons c u => rfl

theorem eq_nil_of_head? {w : List Char} (h : w.head? = ([] : List Char).head?) : w = [] :=
  List.head?_eq_none_iff.mp h

/-! ### Scanners -/

/-- The scanner takes the characters `u` and gives `k`, at every offset and before every text that
begins as `w` does. No scanner but that of symbols gives a terminator. -/
structure Scans (scan : List Char → Nat → TokenKind × Cursor) (cs u w : List Char) (k : TokenKind) :
    Prop where
  split : cs = u ++ w
  run : ∀ w' n, w'.head? = w.head? → scan (u ++ w') n = (k, ⟨w', n + bytes u⟩)
  plain : k.isTerminator = false

theorem scans_scanString (acc cs : List Char) (n : Nat) :
    ∃ u w k, Scans (scanString acc) cs u w k := by
  induction acc, cs, n using scanString.induct with
  | case1 acc n =>
    refine ⟨[], [], .faulty .unterminatedString, rfl, ?_, rfl⟩
    intro w' n hw
    rw [eq_nil_of_head? hw]
    rfl
  | case2 acc cs n =>
    exact ⟨['"'], cs, .str (String.ofList acc.reverse), rfl, fun _ _ _ => rfl, rfl⟩
  | case3 acc n =>
    refine ⟨['\\'], [], .faulty .unterminatedString, rfl, ?_, rfl⟩
    intro w' n hw
    rw [eq_nil_of_head? hw]
    rfl
  | case4 acc c cs n ih =>
    obtain ⟨u, w, k, h⟩ := ih
    refine ⟨'\\' :: c :: u, w, k, by rw [h.split]; rfl, ?_, h.plain⟩
    intro w' n hw
    have hrun := h.run w' (n + 1 + c.utf8Size) hw
    rw [List.cons_append, List.cons_append, scanString, hrun]
    simp [Nat.add_assoc]
    rfl
  | case5 acc c cs n hquote hlast hescape ih =>
    obtain ⟨u, w, k, h⟩ := ih
    have hbackslash : c ≠ '\\' := by
      rintro rfl
      cases cs with
      | nil => exact hlast rfl rfl
      | cons d cs => exact hescape d cs rfl rfl
    refine ⟨c :: u, w, k, by rw [h.split]; rfl, ?_, h.plain⟩
    intro w' n hw
    have hrun := h.run w' (n + c.utf8Size) hw
    rw [List.cons_append, scanString, hrun]
    · simp [Nat.add_assoc]
    · exact hquote
    · exact fun hc _ => hbackslash hc
    · exact fun _ _ hc _ => hbackslash hc

theorem scans_closeChar (c : Char) (cs : List Char) : ∃ u w k, Scans (closeChar c) cs u w k := by
  cases cs with
  | nil =>
    refine ⟨[], [], .faulty .malformedChar, rfl, ?_, rfl⟩
    intro w' n hw
    rw [eq_nil_of_head? hw]
    rfl
  | cons d cs =>
    by_cases hd : d = '\''
    · subst hd
      exact ⟨['\''], cs, .char c, rfl, fun _ _ _ => rfl, rfl⟩
    · refine ⟨[d], cs, .faulty .malformedChar, rfl, ?_, rfl⟩
      intro w' n _
      rw [List.singleton_append, closeChar]
      · simp
      · exact hd

theorem scans_scanChar (cs : List Char) : ∃ u w k, Scans scanChar cs u w k := by
  cases cs with
  | nil =>
    refine ⟨[], [], .faulty .malformedChar, rfl, ?_, rfl⟩
    intro w' n hw
    rw [eq_nil_of_head? hw]
    rfl
  | cons c cs =>
    by_cases hc : c = '\\'
    · subst hc
      cases cs with
      | nil =>
        refine ⟨['\\'], [], .faulty .malformedChar, rfl, ?_, rfl⟩
        intro w' n hw
        rw [eq_nil_of_head? hw]
        rfl
      | cons c cs =>
        obtain ⟨u, w, k, h⟩ := scans_closeChar (unescape c) cs
        refine ⟨'\\' :: c :: u, w, k, by rw [h.split]; rfl, ?_, h.plain⟩
        intro w' n hw
        have hrun := h.run w' (n + 1 + c.utf8Size) hw
        rw [List.cons_append, List.cons_append, scanChar, hrun]
        simp [Nat.add_assoc]
        rfl
    · obtain ⟨u, w, k, h⟩ := scans_closeChar c cs
      refine ⟨c :: u, w, k, by rw [h.split]; rfl, ?_, h.plain⟩
      intro w' n hw
      have hrun := h.run w' (n + c.utf8Size) hw
      rw [List.cons_append, scanChar, hrun]
      · simp [Nat.add_assoc]
      · exact fun hc' _ => hc hc'
      · exact fun _ _ hc' _ => hc hc'

/-- The digits are a range of code points. -/
theorem isDigit_iff {c : Char} : c.isDigit = true ↔ 48 ≤ c.toNat ∧ c.toNat ≤ 57 := by
  simp only [Char.isDigit, Bool.and_eq_true, decide_eq_true_eq, UInt32.le_iff_toNat_le]
  exact Iff.rfl

/-- The letters are two ranges of code points. -/
theorem isAlpha_iff {c : Char} : c.isAlpha = true ↔
    (65 ≤ c.toNat ∧ c.toNat ≤ 90) ∨ (97 ≤ c.toNat ∧ c.toNat ≤ 122) := by
  delta Char.isAlpha Char.isUpper Char.isLower
  simp only [Bool.or_eq_true, Bool.and_eq_true, decide_eq_true_eq, UInt32.le_iff_toNat_le]
  exact Iff.rfl

theorem utf8Size_of_isDigit {c : Char} (h : c.isDigit = true) : c.utf8Size = 1 := by
  refine utf8Size_eq_one ?_
  rw [isDigit_iff] at h
  omega

theorem utf8Size_of_continuesWord {c : Char} (h : continuesWord c = true) : c.utf8Size = 1 := by
  refine utf8Size_eq_one ?_
  simp only [continuesWord, Char.isAlphanum, Bool.or_eq_true, isAlpha_iff, isDigit_iff,
    beq_iff_eq] at h
  rcases h with (((h | h) | h) | h) | h
  · omega
  · omega
  · omega
  · rw [h]; decide
  · rw [h]; decide

theorem continuesWord_of_beginsWord {c : Char} (h : beginsWord c = true) :
    continuesWord c = true := by
  simp only [beginsWord, Bool.or_eq_true] at h
  simp only [continuesWord, Char.isAlphanum, Bool.or_eq_true]
  rcases h with h | h
  · exact .inl (.inl (.inl h))
  · exact .inl (.inr h)

theorem scanNumeral_run (m : Numeral) (cs : List Char) (n : Nat) :
    ∃ u w m', cs = u ++ w ∧ ∀ w' n, w'.head? = w.head? →
      scanNumeral m (u ++ w') n = (m', ⟨w', n + bytes u⟩) := by
  induction m, cs, n using scanNumeral.induct with
  | case1 m n =>
    refine ⟨[], [], m, rfl, ?_⟩
    intro w' n hw
    rw [eq_nil_of_head? hw]
    rfl
  | case2 m c cs n hc ih =>
    obtain ⟨u, w, m', rfl, hrun⟩ := ih
    refine ⟨c :: u, w, m', rfl, ?_⟩
    intro w' n hw
    rw [List.cons_append, scanNumeral, if_pos hc, hrun w' _ hw, Text.bytes_cons,
      utf8Size_of_isDigit hc, Nat.add_assoc]
  | case3 m c cs n hdigit hc ih =>
    obtain ⟨u, w, m', rfl, hrun⟩ := ih
    refine ⟨c :: u, w, m', rfl, ?_⟩
    intro w' n hw
    have hsize : c.utf8Size = 1 := by rw [beq_iff_eq.mp hc]; decide
    rw [List.cons_append, scanNumeral, if_neg hdigit, if_pos hc, hrun w' _ hw, Text.bytes_cons,
      hsize, Nat.add_assoc]
  | case4 m c cs n hdigit hline hc ih =>
    obtain ⟨u, w, m', rfl, hrun⟩ := ih
    refine ⟨c :: u, w, m', rfl, ?_⟩
    intro w' n hw
    have hsize : c.utf8Size = 1 := by
      rw [beq_iff_eq.mp (Bool.and_eq_true_iff.mp hc).1]; decide
    rw [List.cons_append, scanNumeral, if_neg hdigit, if_neg hline, if_pos hc, hrun w' _ hw,
      Text.bytes_cons, hsize, Nat.add_assoc]
  | case5 m c cs n hdigit hline hpoint =>
    refine ⟨[], c :: cs, m, rfl, ?_⟩
    intro w' n hw
    cases w' with
    | nil => cases hw
    | cons d ds =>
      obtain rfl : d = c := Option.some.inj hw
      rw [List.nil_append, scanNumeral, if_neg hdigit, if_neg hline, if_neg hpoint]
      rfl

theorem isTerminator_toKind (m : Numeral) : m.toKind.isTerminator = false := by
  unfold Numeral.toKind
  split
  · rfl
  · split <;> rfl

/-- Reads a number after its first digit. -/
def scanNumber (c : Char) (cs : List Char) (n : Nat) : TokenKind × Cursor :=
  ((scanNumeral ⟨[c], none⟩ cs n).1.toKind, (scanNumeral ⟨[c], none⟩ cs n).2)

theorem scans_scanNumber (c : Char) (cs : List Char) : ∃ u w k, Scans (scanNumber c) cs u w k := by
  obtain ⟨u, w, m, hsplit, hrun⟩ := scanNumeral_run ⟨[c], none⟩ cs 0
  refine ⟨u, w, m.toKind, hsplit, ?_, isTerminator_toKind m⟩
  intro w' n hw
  rw [scanNumber, hrun w' n hw]

theorem takeWhile_append_of_head? {p : Char → Bool} {u w : List Char} (hu : ∀ c ∈ u, p c = true)
    (hw : ∀ c, w.head? = some c → p c = false) :
    (u ++ w).takeWhile p = u ∧ (u ++ w).dropWhile p = w := by
  have htail : w.takeWhile p = [] ∧ w.dropWhile p = w := by
    cases w with
    | nil => exact ⟨rfl, rfl⟩
    | cons c w => simp [hw c rfl]
  rw [List.takeWhile_append_of_pos hu, List.dropWhile_append_of_pos hu, htail.1, htail.2]
  exact ⟨List.append_nil u, rfl⟩

theorem bytes_of_continuesWord {u : List Char} (h : ∀ c ∈ u, continuesWord c = true) :
    bytes u = u.length := by
  induction u with
  | nil => rfl
  | cons c u ih =>
    have hc := utf8Size_of_continuesWord (h c List.mem_cons_self)
    have hu := ih fun d hd => h d (List.mem_cons_of_mem c hd)
    rw [Text.bytes_cons, hc, hu, List.length_cons, Nat.add_comm]

/-- Reads a word after its first character. -/
def scanWord (c : Char) (cs : List Char) (n : Nat) : TokenKind × Cursor :=
  (wordKind (String.ofList (c :: cs.takeWhile continuesWord)),
    ⟨cs.dropWhile continuesWord, n + (cs.takeWhile continuesWord).length⟩)

theorem isTerminator_wordKind (s : String) : (wordKind s).isTerminator = false := by
  unfold wordKind
  split <;> rfl

theorem scans_scanWord (c : Char) (cs : List Char) : ∃ u w k, Scans (scanWord c) cs u w k := by
  have hu : ∀ d ∈ cs.takeWhile continuesWord, continuesWord d = true := fun d hd =>
    List.all_eq_true.mp List.all_takeWhile d hd
  refine ⟨cs.takeWhile continuesWord, cs.dropWhile continuesWord,
    wordKind (String.ofList (c :: cs.takeWhile continuesWord)),
    List.takeWhile_append_dropWhile.symm, ?_, isTerminator_wordKind _⟩
  intro w' n hw
  have hstop : ∀ d, w'.head? = some d → continuesWord d = false := by
    intro d hd
    rw [hw] at hd
    have := List.head?_dropWhile_not continuesWord cs
    simpa [hd] using this
  obtain ⟨htake, hdrop⟩ := takeWhile_append_of_head? hu hstop
  rw [scanWord, htake, hdrop, bytes_of_continuesWord hu]

/-! ### Tokens -/

theorem ofTwo?_ascii {c d : Char} {s : Symbol} (h : Symbol.ofTwo? c d = some s) :
    c.utf8Size = 1 ∧ d.utf8Size = 1 ∧
      ((TokenKind.symbol s).isTerminator = true → [c, d] = [';', ';']) := by
  unfold Symbol.ofTwo? at h
  split at h <;> cases h <;> decide

theorem ofOne?_ascii {c : Char} {s : Symbol} (h : Symbol.ofOne? c = some s) :
    c.utf8Size = 1 ∧ (TokenKind.symbol s).isTerminator = false := by
  unfold Symbol.ofOne? at h
  split at h <;> cases h <;> decide

/-- A token that is no symbol is read by the scanner that its first character chooses. -/
theorem exists_scans_of_no_symbol {c : Char} (hone : Symbol.ofOne? c = none) (cs : List Char) :
    ∃ scan u w k, Scans scan cs u w k ∧
      ∀ ds n, ds.head?.bind (Symbol.ofTwo? c) = none →
        scanToken c ds n = scan ds (n + c.utf8Size) := by
  by_cases hstring : c = '"'
  · subst hstring
    obtain ⟨u, w, k, h⟩ := scans_scanString [] cs 0
    exact ⟨_, u, w, k, h, fun ds n hds => by simp only [scanToken, hds]; rfl⟩
  by_cases hchar : c = '\''
  · subst hchar
    obtain ⟨u, w, k, h⟩ := scans_scanChar cs
    exact ⟨_, u, w, k, h, fun ds n hds => by simp only [scanToken, hds]; rfl⟩
  by_cases hdigit : c.isDigit = true
  · obtain ⟨u, w, k, h⟩ := scans_scanNumber c cs
    refine ⟨_, u, w, k, h, ?_⟩
    intro ds n hds
    simp [scanToken, hds, hone, hstring, hchar, hdigit, utf8Size_of_isDigit hdigit, scanNumber]
  by_cases hword : beginsWord c = true
  · obtain ⟨u, w, k, h⟩ := scans_scanWord c cs
    refine ⟨_, u, w, k, h, ?_⟩
    intro ds n hds
    have hsize := utf8Size_of_continuesWord (continuesWord_of_beginsWord hword)
    simp [scanToken, hds, hone, hstring, hchar, hdigit, hword, hsize, scanWord]
  · refine ⟨fun ds n => (.faulty (.unexpectedChar c), ⟨ds, n⟩), [], cs,
      .faulty (.unexpectedChar c), ⟨rfl, ?_, rfl⟩, ?_⟩
    · exact fun _ _ _ => rfl
    · intro ds n hds
      simp [scanToken, hds, hone, hstring, hchar, hdigit, hword]

/-- The token that begins with `c` takes the characters `u` after it, before every text that begins
as `w` does. After a terminator any text may stand. -/
theorem scanToken_run (c : Char) (cs : List Char) :
    ∃ u w k, cs = u ++ w ∧ (k.isTerminator = true → c :: u = [';', ';']) ∧
      ∀ w' n, (w'.head? = w.head? ∨ k.isTerminator = true) →
        scanToken c (u ++ w') n = (k, ⟨w', n + bytes (c :: u)⟩) := by
  cases htwo : cs.head?.bind (Symbol.ofTwo? c) with
  | some s =>
    obtain ⟨d, hd, hs⟩ := Option.bind_eq_some_iff.mp htwo
    obtain ⟨ds, rfl⟩ := List.head?_eq_some_iff.mp hd
    obtain ⟨hc, hd, hsemis⟩ := ofTwo?_ascii hs
    refine ⟨[d], ds, .symbol s, rfl, hsemis, ?_⟩
    intro w' n _
    simp [scanToken, hs, hc, hd]
  | none =>
    cases hone : Symbol.ofOne? c with
    | some s =>
      obtain ⟨hc, hplain⟩ := ofOne?_ascii hone
      refine ⟨[], cs, .symbol s, rfl, by simp [hplain], ?_⟩
      intro w' n hw
      have hw : w'.head? = cs.head? := by simpa [hplain] using hw
      simp [scanToken, hw, htwo, hone, hc]
    | none =>
      obtain ⟨scan, u, w, k, h, hscan⟩ := exists_scans_of_no_symbol hone cs
      refine ⟨u, w, k, h.split, by simp [h.plain], ?_⟩
      intro w' n hw
      have hw : w'.head? = w.head? := by simpa [h.plain] using hw
      have hhead : (u ++ w').head?.bind (Symbol.ofTwo? c) = none := by
        rw [head?_append_congr hw, ← h.split, htwo]
      rw [hscan _ _ hhead, h.run w' _ hw, Text.bytes_cons, Nat.add_assoc]

/-! ### Blanks and comments -/

-- Stated apart, since the equations of `skipTrivia` that Lean derives take long to prove.
theorem skipTrivia_outside {c : Char} {cs : List Char} (start n : Nat)
    (hopen : ∀ ds, c = '(' → cs = '*' :: ds → False) :
    skipTrivia 0 start (c :: cs) n =
      if Text.isBlank c then skipTrivia 0 start cs (n + c.utf8Size) else .ok ⟨c :: cs, n⟩ := by
  rw [skipTrivia.eq_def]
  split <;> simp_all

theorem skipTrivia_inside {c : Char} {cs : List Char} (d start n : Nat)
    (hopen : ∀ ds, c = '(' → cs = '*' :: ds → False)
    (hclose : ∀ ds, c = '*' → cs = ')' :: ds → False) :
    skipTrivia (d + 1) start (c :: cs) n = skipTrivia (d + 1) start cs (n + c.utf8Size) := by
  rw [skipTrivia.eq_def]
  split <;> simp_all

/-- The ways in which skipping blanks and comments can end in the text `cs`, when `d` comments are
open before it: there is no token, a comment is not closed, or the character `c` begins a token. -/
inductive Skips (d : Nat) (cs : List Char) : Prop where
  /-- There are only blanks and comments. -/
  | blank (h : ∀ start n, skipTrivia d start cs n = .ok ⟨[], n + bytes cs⟩)
  /-- The comment that was open before the text is not closed. -/
  | unclosed (pos : 0 < d) (h : ∀ start n, skipTrivia d start cs n = .error ⟨start, n + bytes cs⟩)
  /-- A comment that begins with `v` is not closed. -/
  | opened (u v : List Char) (split : cs = u ++ v) (ne : v ≠ [])
      (h : ∀ start n, skipTrivia d start cs n = .error ⟨n + bytes u, n + bytes cs⟩)
  /-- A token begins with `c`. -/
  | token (u : List Char) (c : Char) (w : List Char) (split : cs = u ++ c :: w)
      (h : ∀ w' start n, w'.head? = w.head? →
        skipTrivia d start (u ++ c :: w') n = .ok ⟨c :: w', n + bytes u⟩)

/-- Blanks and comments `p` before a text, after which `e` comments are open. -/
theorem Skips.prepend {d e : Nat} {p cs : List Char}
    (hp : ∀ cs' start n, cs'.head? = cs.head? →
      skipTrivia d start (p ++ cs') n = skipTrivia e start cs' (n + bytes p))
    (hd : 0 < e → 0 < d) (h : Skips e cs) : Skips d (p ++ cs) := by
  cases h with
  | blank h =>
    refine .blank ?_
    intro start n
    rw [hp cs start n rfl, h, Text.bytes_append, Nat.add_assoc]
  | unclosed pos h =>
    refine .unclosed (hd pos) ?_
    intro start n
    rw [hp cs start n rfl, h, Text.bytes_append, Nat.add_assoc]
  | opened u v split ne h =>
    refine .opened (p ++ u) v (by rw [split, List.append_assoc]) ne ?_
    intro start n
    rw [hp cs start n rfl, h, Text.bytes_append, Text.bytes_append, Nat.add_assoc, Nat.add_assoc]
  | token u c w split h =>
    refine .token (p ++ u) c w (by rw [split, List.append_assoc]) ?_
    intro w' start n hw
    have hhead : (u ++ c :: w').head? = cs.head? := by rw [split]; exact head?_append_congr rfl
    rw [List.append_assoc, hp _ start n hhead, h w' start _ hw, Text.bytes_append, Nat.add_assoc]

/-- A comment that opens a text is open after its opening mark. -/
theorem Skips.comment {cs : List Char} (h : Skips 1 cs) : Skips 0 ('(' :: '*' :: cs) := by
  have hopen : ∀ cs' start n,
      skipTrivia 0 start ('(' :: '*' :: cs') n = skipTrivia 1 n cs' (n + 2) := fun _ _ _ => rfl
  have hsize : ∀ cs', bytes ('(' :: '*' :: cs') = 2 + bytes cs' := by
    intro cs'
    have h₁ : '('.utf8Size = 1 := by decide
    have h₂ : '*'.utf8Size = 1 := by decide
    rw [Text.bytes_cons, Text.bytes_cons, h₁, h₂]
    omega
  cases h with
  | blank h =>
    refine .blank ?_
    intro start n
    rw [hopen, h, hsize cs, Nat.add_assoc]
  | unclosed _ h =>
    refine .opened [] ('(' :: '*' :: cs) rfl (List.cons_ne_nil _ _) ?_
    intro start n
    rw [hopen, h, hsize cs, Nat.add_assoc]
    rfl
  | opened u v split ne h =>
    refine .opened ('(' :: '*' :: u) v (by rw [split]; rfl) ne ?_
    intro start n
    rw [hopen, h, hsize cs, hsize u, Nat.add_assoc, Nat.add_assoc]
  | token u c w split h =>
    refine .token ('(' :: '*' :: u) c w (by rw [split]; rfl) ?_
    intro w' start n hw
    rw [List.cons_append, List.cons_append, hopen, h w' n _ hw, hsize u, Nat.add_assoc]

/-- Two characters that form no mark form none before a text that begins in the same way. -/
theorem no_mark_of_head? {a b c : Char} {cs cs' : List Char}
    (h : ∀ ds, c = a → cs = b :: ds → False) (hcs : cs'.head? = cs.head?) :
    ∀ ds, c = a → cs' = b :: ds → False := by
  rintro ds hc rfl
  obtain ⟨es, rfl⟩ := List.head?_eq_some_iff.mp hcs.symm
  exact h es hc rfl

theorem skips (d : Nat) (cs : List Char) : Skips d cs := by
  -- the recursion of `skipTrivia`: what one step passes over does not depend on what follows it,
  -- beyond the character that could complete a mark
  induction d, 0, cs, 0 using skipTrivia.induct with
  | case1 start n => exact .blank fun _ _ => rfl
  | case2 d start n => exact .unclosed d.succ_pos fun _ _ => rfl
  | case3 start cs n ih => exact ih.comment
  | case4 d start cs n ih =>
    exact ih.prepend (p := ['(', '*']) (fun _ _ _ _ => rfl) fun _ => d.succ_pos
  | case5 d start cs n ih =>
    exact ih.prepend (p := ['*', ')']) (fun _ _ _ _ => rfl) fun _ => d.succ_pos
  | case6 start c cs n hopen hblank ih =>
    refine ih.prepend (p := [c]) ?_ id
    intro cs' start n hcs
    rw [List.singleton_append, skipTrivia_outside start n (no_mark_of_head? hopen hcs),
      if_pos hblank]
    simp
  | case7 start c cs n hopen hblank =>
    refine .token [] c cs rfl ?_
    intro w' start n hw
    rw [List.nil_append, skipTrivia_outside start n (no_mark_of_head? hopen hw), if_neg hblank]
    rfl
  | case8 d start c cs n hopen hclose ih =>
    refine ih.prepend (p := [c]) ?_ id
    intro cs' start n hcs
    rw [List.singleton_append, skipTrivia_inside d start n (no_mark_of_head? hopen hcs)
      (no_mark_of_head? hclose hcs)]
    simp

/-! ### Lexemes -/

/-- The first token of the text `cs` that begins at offset `n`, and what follows it. -/
def nextToken (cs : List Char) (n : Nat) : Option (Token × Cursor) :=
  match skipTrivia 0 n cs n with
  | .error span => some (⟨.faulty .unterminatedComment, span⟩, ⟨[], span.stop⟩)
  | .ok ⟨[], _⟩ => none
  | .ok ⟨c :: cs, start⟩ =>
    let (kind, next) := scanToken c cs start
    some (⟨kind, ⟨start, next.offset⟩⟩, next)

theorem lexFrom_nil (fuel n : Nat) (acc : Array Token) : lexFrom fuel [] n acc = acc := by
  cases fuel <;> rfl

theorem lexFrom_succ (fuel : Nat) (cs : List Char) (n : Nat) (acc : Array Token) :
    lexFrom (fuel + 1) cs n acc =
      match nextToken cs n with
      | none => acc
      | some (t, next) => lexFrom fuel next.rest next.offset (acc.push t) := by
  rw [lexFrom, nextToken]
  cases skipTrivia 0 n cs n with
  | error span => exact (lexFrom_nil _ _ _).symm
  | ok next =>
    obtain ⟨rest, start⟩ := next
    cases rest <;> rfl

/-- A token without a position. -/
structure Lexeme where
  /-- The blanks and comments before it. -/
  blank : List Char
  /-- Its characters. -/
  text : List Char
  /-- What it is. -/
  kind : TokenKind

namespace Lexeme

/-- The length of a lexeme in bytes. -/
def size (l : Lexeme) : Nat := bytes l.blank + bytes l.text

/-- The token of a lexeme that begins at offset `n`. -/
def token (n : Nat) (l : Lexeme) : Token := ⟨l.kind, ⟨n + bytes l.blank, n + l.size⟩⟩

/-- The tokens of lexemes that follow one another from offset `n` on. -/
def tokens : (n : Nat) → List Lexeme → List Token
  | _, [] => []
  | n, l :: ls => l.token n :: tokens (n + l.size) ls

/-- The length of lexemes that follow one another, in bytes. -/
def extent (ls : List Lexeme) : Nat := (ls.map size).sum

@[simp] theorem extent_nil : extent [] = 0 := rfl

@[simp] theorem extent_cons (l : Lexeme) (ls : List Lexeme) :
    extent (l :: ls) = l.size + extent ls := rfl

@[simp] theorem extent_append (ls ls' : List Lexeme) :
    extent (ls ++ ls') = extent ls + extent ls' := by
  simp [extent]

@[simp] theorem tokens_nil (n : Nat) : tokens n [] = [] := rfl

@[simp] theorem tokens_cons (n : Nat) (l : Lexeme) (ls : List Lexeme) :
    tokens n (l :: ls) = l.token n :: tokens (n + l.size) ls := rfl

theorem tokens_append (n : Nat) (ls ls' : List Lexeme) :
    tokens n (ls ++ ls') = tokens n ls ++ tokens (n + extent ls) ls' := by
  induction ls generalizing n with
  | nil => rfl
  | cons l ls ih => simp [ih, Nat.add_assoc]

theorem tokens_add (n k : Nat) (ls : List Lexeme) :
    tokens (n + k) ls = (tokens n ls).map (Token.move (· + k)) := by
  induction ls generalizing n with
  | nil => rfl
  | cons l ls ih =>
    have hrest : n + k + l.size = n + l.size + k := by omega
    rw [tokens_cons, hrest, ih, tokens_cons, List.map_cons]
    simp [token, Token.move, Span.move, Nat.add_right_comm]

@[simp] theorem length_tokens (n : Nat) (ls : List Lexeme) :
    (tokens n ls).length = ls.length := by
  induction ls generalizing n with
  | nil => rfl
  | cons l ls ih => simp [ih]

/-- The lexeme is what is read before the text `w`, at every offset, and before every other text
that begins as `w` does. After a terminator any text may stand. -/
structure Begins (l : Lexeme) (w : List Char) : Prop where
  ne : l.text ≠ []
  semis : l.kind.isTerminator = true → l.text = [';', ';']
  next : ∀ w' n, (w'.head? = w.head? ∨ l.kind.isTerminator = true) →
    nextToken (l.blank ++ (l.text ++ w')) n = some (l.token n, ⟨w', n + l.size⟩)

end Lexeme

/-- The text consists of the lexemes, and of blanks and comments after them. -/
inductive Lexes : List Char → List Lexeme → Prop where
  | blank {cs : List Char} (h : ∀ n, nextToken cs n = none) : Lexes cs []
  | token {l : Lexeme} {w : List Char} {ls : List Lexeme} (h : l.Begins w) (rest : Lexes w ls) :
    Lexes (l.blank ++ (l.text ++ w)) (l :: ls)

theorem exists_begins (cs : List Char) :
    (∀ n, nextToken cs n = none) ∨
      ∃ (l : Lexeme) (w : List Char), cs = l.blank ++ (l.text ++ w) ∧ l.Begins w := by
  cases skips 0 cs with
  | blank h => exact .inl fun n => by rw [nextToken, h]
  | unclosed pos h => exact absurd pos (Nat.lt_irrefl 0)
  | opened u v split ne h =>
    refine .inr ⟨⟨u, v, .faulty .unterminatedComment⟩, [], by simp [split], ne, nofun, ?_⟩
    intro w' n hw
    have hw : w' = [] := eq_nil_of_head? (by simpa [TokenKind.isTerminator] using hw)
    rw [hw, List.append_nil, ← split, nextToken, h]
    simp [Lexeme.token, Lexeme.size, split]
  | token u c w split h =>
    obtain ⟨v, w, k, rfl, hsemis, hrun⟩ := scanToken_run c w
    refine .inr ⟨⟨u, c :: v, k⟩, w, split, List.cons_ne_nil c v, hsemis, ?_⟩
    intro w' n hw
    have hhead : (v ++ w').head? = (v ++ w).head? := by
      rcases hw with hw | hk
      · exact head?_append_congr hw
      · cases hsemis hk
        rfl
    rw [List.cons_append, nextToken, h (v ++ w') n n hhead]
    simp only [hrun w' _ hw]
    simp [Lexeme.token, Lexeme.size, Nat.add_assoc]

theorem exists_lexes (cs : List Char) : ∃ ls, Lexes cs ls := by
  induction h : cs.length using Nat.strongRecOn generalizing cs with
  | ind k ih =>
    rcases exists_begins cs with hnone | ⟨l, w, rfl, hl⟩
    · exact ⟨[], .blank hnone⟩
    · have hpos := List.length_pos_iff.mpr hl.ne
      have hshort : w.length < k := by
        rw [← h, List.length_append, List.length_append]
        omega
      obtain ⟨ls, hls⟩ := ih w.length hshort w rfl
      exact ⟨l :: ls, .token hl hls⟩

theorem Lexes.lexFrom_eq {cs : List Char} {ls : List Lexeme} (h : Lexes cs ls) :
    ∀ (fuel n : Nat) (acc : Array Token), cs.length ≤ fuel →
      (lexFrom fuel cs n acc).toList = acc.toList ++ Lexeme.tokens n ls := by
  induction h with
  | blank hnone =>
    intro fuel n acc _
    cases fuel with
    | zero => simp [lexFrom, Lexeme.tokens]
    | succ fuel => simp [lexFrom_succ, hnone, Lexeme.tokens]
  | token hl _ ih =>
    intro fuel n acc hfuel
    have hpos := List.length_pos_iff.mpr hl.ne
    rw [List.length_append, List.length_append] at hfuel
    obtain ⟨fuel, rfl⟩ := Nat.exists_eq_add_one_of_ne_zero (by omega : fuel ≠ 0)
    rw [lexFrom_succ, hl.next _ n (.inl rfl)]
    simp [ih fuel _ _ (by omega), Lexeme.tokens]

/-- The tokens of a text are those of its lexemes. -/
theorem Lexes.lex_eq {source : String} {ls : List Lexeme} (h : Lexes source.toList ls) :
    lex source = Lexeme.tokens 0 ls := by
  rw [lex, h.lexFrom_eq _ 0 #[] (Nat.le_refl _)]
  rfl

theorem Lexes.lex_ofList {cs : List Char} {ls : List Lexeme} (h : Lexes cs ls) :
    lex (String.ofList cs) = Lexeme.tokens 0 ls := by
  rw [← String.toList_ofList (l := cs)] at h
  exact h.lex_eq

theorem Lexes.nil : Lexes [] [] := .blank fun _ => rfl

/-- A text can be cut after a terminator: what stands before the cut, and what stands after it, has
the lexemes that it has in the whole text. -/
theorem Lexes.cut {l : Lexeme} {after : List Lexeme} (hl : l.kind.isTerminator = true)
    {before : List Lexeme} : ∀ {cs : List Char}, Lexes cs (before ++ l :: after) →
      ∃ u w, cs = u ++ w ∧ Lexes u (before ++ [l]) ∧ Lexes w after ∧
        [';', ';'] <:+ u ∧ bytes u = Lexeme.extent (before ++ [l]) := by
  induction before with
  | nil =>
    rintro cs (_ | @⟨_, w, _, hnext, hrest⟩)
    refine ⟨l.blank ++ (l.text ++ []), w, by simp, ?_, hrest, ?_, by simp [Lexeme.size]⟩
    · exact .token ⟨hnext.ne, hnext.semis, fun w' n _ => hnext.next w' n (.inr hl)⟩ .nil
    · rw [List.append_nil, hnext.semis hl]
      exact List.suffix_append _ _
  | cons k before ih =>
    rintro cs (_ | @⟨_, v, _, hnext, hrest⟩)
    obtain ⟨u, w, rfl, hu, hw, hsemis, hsize⟩ := ih hrest
    -- what follows `k` before the cut is not empty, so it begins as in the whole text
    have hhead : u.head? = (u ++ w).head? := by
      cases u with
      | nil => simp at hsemis
      | cons c u => rfl
    refine ⟨k.blank ++ (k.text ++ u), w, by simp, ?_, hw, ?_, ?_⟩
    · refine .token ⟨hnext.ne, hnext.semis, fun w' n hw' => hnext.next w' n ?_⟩ hu
      rwa [← hhead]
    · exact (hsemis.trans (List.suffix_append _ _)).trans (List.suffix_append _ _)
    · simp [hsize, Lexeme.size, Nat.add_assoc]

/-- A token begins within the text from which it is read. -/
theorem Lexes.start_of_mem {cs : List Char} {ls : List Lexeme} (h : Lexes cs ls) :
    ∀ {n : Nat} {t : Token}, t ∈ Lexeme.tokens n ls →
      n ≤ t.span.start ∧ t.span.start < n + bytes cs := by
  induction h with
  | blank _ => exact nofun
  | @token l w ls hl _ ih =>
    intro n t ht
    have hpos := Text.bytes_pos hl.ne
    simp only [Text.bytes_append]
    rcases List.mem_cons.mp ht with rfl | ht
    · simp only [Lexeme.token]
      omega
    · have hrest := ih ht
      simp only [Lexeme.size] at hrest
      omega

end ContractML

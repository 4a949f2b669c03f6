import ContractML.Proofs.Recovery
import ContractML.Proofs.Rows

/-!
# Where tokens stand

The tokens of a text stand one after the other, each of them takes some characters, and a name is
what the text says there. A stream goes forward through them: the token at hand stands after the
token read last.

## Main definitions

* `Stream.Laid` — the tokens that are left stand where they should.
* `Stream.Precedes` — a stream before another one in the same text.

## Main results

* `Stream.Laid.advance`, `Stream.Laid.skipStatement` — the streams after one token, or after a
  statement.
* `Lexes.laid_tokens`, `Stream.laid_ofTokens` — **the tokens of a text stand where they should**.
-/

namespace ContractML

open Text (bytes)

/-! ### Streams -/

/-- A token that takes some characters of the text; a name is what the text says there. -/
structure Token.Placed (source : String) (t : Token) : Prop where
  nonempty : t.span.start < t.span.stop
  within : t.span.Within source
  text : ∀ name, t.kind = .ident name → t.span.Reads source name

/-- The tokens that are left stand where they should, after the token read last. -/
structure Stream.Laid (source : String) (s : Stream) : Prop where
  eof : s.eof = source.utf8ByteSize
  valid : String.Pos.Raw.IsValid source ⟨s.lastStop⟩
  placed : ∀ t ∈ s.tokens, t.Placed source
  after : ∀ t ∈ s.tokens, s.lastStop ≤ t.span.start
  ordered : s.tokens.Pairwise fun t u => t.span.stop ≤ u.span.start

/-- The second stream is not before the first one. -/
structure Stream.Precedes (s t : Stream) : Prop where
  lastStop_le : s.lastStop ≤ t.lastStop
  start_le : s.span.start ≤ t.span.start

namespace Stream

variable {source : String} {s t u : Stream}

theorem Precedes.refl (s : Stream) : s.Precedes s := ⟨le_rfl, le_rfl⟩

theorem Precedes.trans (h : s.Precedes t) (h' : t.Precedes u) : s.Precedes u :=
  ⟨h.lastStop_le.trans h'.lastStop_le, h.start_le.trans h'.start_le⟩

namespace Laid

theorem span_within (h : s.Laid source) : s.span.Within source := by
  obtain ⟨tokens, lastStop, eof⟩ := s
  cases tokens with
  | cons t ts => exact (h.placed t List.mem_cons_self).within
  | nil =>
    obtain rfl : eof = source.utf8ByteSize := h.eof
    have hend : String.Pos.Raw.IsValid source ⟨source.utf8ByteSize⟩ :=
      String.Pos.Raw.isValid_rawEndPos
    exact Span.within_of_valid le_rfl hend hend

/-- The token at hand stands after the token read last. -/
theorem lastStop_le (h : s.Laid source) : s.lastStop ≤ s.span.start := by
  obtain ⟨tokens, lastStop, eof⟩ := s
  cases tokens with
  | cons t ts => exact h.after t List.mem_cons_self
  | nil =>
    obtain rfl : eof = source.utf8ByteSize := h.eof
    exact le_of_isValid h.valid

/-- The stream after its first token. -/
theorem tail {t : Token} {ts : List Token} {lastStop eof : Nat}
    (h : (Stream.mk (t :: ts) lastStop eof).Laid source) :
    (Stream.mk ts t.span.stop eof).Laid source ∧
      (Stream.mk (t :: ts) lastStop eof).Precedes ⟨ts, t.span.stop, eof⟩ := by
  have ht := h.placed t List.mem_cons_self
  have hordered := List.pairwise_cons.mp h.ordered
  have hrest : (Stream.mk ts t.span.stop eof).Laid source :=
    ⟨h.eof, ht.within.stop_valid, fun u hu => h.placed u (List.mem_cons_of_mem t hu), hordered.1,
      hordered.2⟩
  refine ⟨hrest, ⟨?_, ?_⟩⟩
  · exact h.lastStop_le.trans ht.nonempty.le
  · exact ht.nonempty.le.trans hrest.lastStop_le

theorem advance (h : s.Laid source) : s.advance.Laid source ∧ s.Precedes s.advance := by
  obtain ⟨tokens, lastStop, eof⟩ := s
  cases tokens with
  | nil => exact ⟨h, .refl _⟩
  | cons t ts => exact h.tail

theorem skipStatement (h : s.Laid source) :
    s.skipStatement.Laid source ∧ s.Precedes s.skipStatement := by
  obtain ⟨tokens, lastStop, eof⟩ := s
  induction tokens generalizing lastStop with
  | nil => exact ⟨h, .refl _⟩
  | cons t ts ih =>
    cases ht : t.kind.isTerminator with
    | true =>
      rw [skipStatement_terminator ht]
      exact h.tail
    | false =>
      -- Nothing is read of a token that is skipped, but the streams stay in order.
      obtain ⟨hrest, hstep⟩ := h.tail
      rw [skipStatement_cons ht]
      exact ⟨(ih _ hrest).1, hstep.trans (ih _ hrest).2⟩

/-- The token at hand, if there is one. -/
theorem exists_token (h : s.Laid source) {k : TokenKind} (hk : s.kind? = some k) :
    (Token.mk k s.span).Placed source ∧ s.advance.lastStop = s.span.stop := by
  obtain ⟨tokens, lastStop, eof⟩ := s
  cases tokens with
  | nil => cases hk
  | cons t ts =>
    cases hk
    exact ⟨h.placed t List.mem_cons_self, rfl⟩

/-- A node without parts that is the token at hand. -/
theorem row_token (h : s.Laid source) {k : TokenKind} (hk : s.kind? = some k) {n : Node}
    (hparts : n.parts = []) (hspan : n.span = s.span)
    (htext : ∀ x, n = .ident x → k = .ident x.text) :
    Row source s.span.start s.advance.lastStop [n] := by
  obtain ⟨ht, hstop⟩ := h.exists_token hk
  have hplaced : n.Placed source := by
    refine ⟨?_, ?_, by simp [hparts], by simp [hparts], ?_⟩
    · rw [hspan]
      exact ht.nonempty
    · rw [hspan]
      exact ht.within
    · rintro x rfl
      have hreads := ht.text x.text (htext x rfl)
      rwa [show x.span = s.span from hspan]
  have hlaid : n.Laid source := Node.laid_of_parts hplaced (by simp [hparts])
  exact Row.singleton hlaid (by rw [hspan]) (by rw [hspan, hstop])

end Laid

end Stream

/-! ### The tokens of a text -/

theorem scanString_ne_ident (acc cs : List Char) (n : Nat) (name : String) :
    (scanString acc cs n).1 ≠ .ident name := by
  induction acc, cs, n using scanString.induct with
  | case4 acc c cs n ih => exact ih
  | case5 acc c cs n hquote hlast hescape ih =>
    rw [scanString]
    · exact ih
    · exact hquote
    · exact hlast
    · exact hescape
  | _ =>
    intro h
    cases h

theorem closeChar_ne_ident (c : Char) (cs : List Char) (n : Nat) (name : String) :
    (closeChar c cs n).1 ≠ .ident name := by
  rw [closeChar.eq_def]
  split <;> exact nofun

theorem scanChar_ne_ident (cs : List Char) (n : Nat) (name : String) :
    (scanChar cs n).1 ≠ .ident name := by
  rw [scanChar.eq_def]
  split
  · exact nofun
  · exact nofun
  · exact closeChar_ne_ident _ _ _ name
  · exact closeChar_ne_ident _ _ _ name

theorem Numeral.toKind_ne_ident (m : Numeral) (name : String) : m.toKind ≠ .ident name := by
  unfold toKind
  split
  · exact nofun
  · split <;> exact nofun

/-- A name is the characters that are read. -/
theorem scanToken_ident {c : Char} {cs : List Char} {n : Nat} {name : String} {next : Cursor}
    (h : scanToken c cs n = (.ident name, next)) : c :: cs = name.toList ++ next.rest := by
  unfold scanToken at h
  split at h
  · cases h
  · split at h
    · cases h
    · -- Of all tokens only a word can be a name.
      split_ifs at h
      · exact absurd (congrArg Prod.fst h) (scanString_ne_ident [] cs (n + 1) name)
      · exact absurd (congrArg Prod.fst h) (scanChar_ne_ident cs (n + 1) name)
      · exact absurd (congrArg Prod.fst h) (Numeral.toKind_ne_ident _ name)
      · obtain ⟨hkind, rfl⟩ := Prod.mk.inj h
        unfold wordKind at hkind
        split at hkind
        · cases hkind
        · cases hkind
          rw [String.toList_ofList, List.cons_append, List.takeWhile_append_dropWhile]
      · cases h

/-- What is skipped before a token is a part of the text. -/
theorem skipTrivia_split {cs rest : List Char} {n start : Nat}
    (h : skipTrivia 0 n cs n = .ok ⟨rest, start⟩) :
    ∃ u, cs = u ++ rest ∧ start = n + bytes u := by
  cases skips 0 cs with
  | blank hrun =>
    cases (hrun n n).symm.trans h
    exact ⟨cs, (List.append_nil cs).symm, rfl⟩
  | unclosed pos _ => exact absurd pos (Nat.lt_irrefl 0)
  | opened _ _ _ _ hrun => cases (hrun n n).symm.trans h
  | token u c w hsplit hrun =>
    rw [hsplit] at h
    cases (hrun w n n rfl).symm.trans h
    exact ⟨u, hsplit, rfl⟩

/-- The characters of a lexeme that is a name are the name. -/
theorem Lexeme.Begins.text_eq {l : Lexeme} {w : List Char} {name : String} (h : l.Begins w)
    (hk : l.kind = .ident name) : l.text = name.toList := by
  have hnext := h.next w 0 (.inl rfl)
  unfold nextToken at hnext
  split at hnext
  next span hskip => rw [token, hk] at hnext; cases hnext
  next => cases hnext
  next c cs start hskip =>
    obtain ⟨u, hsplit, hstart⟩ := skipTrivia_split hskip
    cases hscan : scanToken c cs start with | mk kind next => ?_
    rw [hscan] at hnext
    obtain ⟨htoken, rfl⟩ := Prod.mk.inj (Option.some.inj hnext)
    obtain ⟨hkind, hspan⟩ := Token.mk.inj htoken
    -- both splits have as many bytes before the token
    have hbytes : bytes u = bytes l.blank := by
      have hsame : start = 0 + bytes l.blank := congrArg Span.start hspan
      omega
    have hboth : (u, c :: cs) = (l.blank, l.text ++ w) := by
      rw [← Text.splitBytes_append, ← hsplit, hbytes, Text.splitBytes_append]
    have hname : name.toList ++ w = l.text ++ w := by
      rw [← (Prod.mk.inj hboth).2, scanToken_ident (hscan.trans (by rw [hkind, hk]))]
    exact (List.append_cancel_right hname).symm

/-- The tokens of a part of a text stand where they should. -/
theorem Lexes.laid_tokens {source : String} {cs : List Char} {ls : List Lexeme} (h : Lexes cs ls) :
    ∀ {u : List Char}, source.toList = u ++ cs →
      (∀ t ∈ Lexeme.tokens (bytes u) ls, t.Placed source) ∧
        (Lexeme.tokens (bytes u) ls).Pairwise fun t t' => t.span.stop ≤ t'.span.start := by
  induction h with
  | blank _ => exact fun _ => ⟨nofun, .nil⟩
  | @token l w ls hl hw ih =>
    intro u hsource
    have hrest : source.toList = (u ++ l.blank ++ l.text) ++ w := by simp [hsource]
    have hsize : bytes (u ++ l.blank ++ l.text) = bytes u + l.size := by
      simp [Lexeme.size]
    obtain ⟨hplaced, hordered⟩ := ih hrest
    rw [hsize] at hplaced hordered
    -- The text of the token stands between what was before it, with its blanks, and the rest.
    have hreads : (l.token (bytes u)).span.Reads source (String.ofList l.text) := by
      refine ⟨String.ofList (u ++ l.blank), String.ofList w, ?_, ?_, ?_⟩
      · rw [← String.ofList_append, ← String.ofList_append, ← hrest, String.ofList_toList]
      · rw [Text.utf8ByteSize_ofList, Text.bytes_append]
        rfl
      · rw [← String.ofList_append, Text.utf8ByteSize_ofList, hsize]
        rfl
    have hpos := Text.bytes_pos hl.ne
    rw [Lexeme.tokens_cons]
    refine ⟨List.forall_mem_cons.mpr ⟨⟨?_, hreads.within, ?_⟩, hplaced⟩,
      List.pairwise_cons.mpr ⟨?_, hordered⟩⟩
    · simp only [Lexeme.token, Lexeme.size]
      omega
    · intro name hname
      rwa [hl.text_eq hname, String.ofList_toList] at hreads
    · exact fun t ht => (hw.start_of_mem ht).1

/-- **The tokens of a text stand where they should.** -/
theorem Stream.laid_ofTokens (source : String) :
    (Stream.ofTokens (lex source) source.utf8ByteSize).Laid source := by
  obtain ⟨ls, h⟩ := exists_lexes source.toList
  obtain ⟨hplaced, hordered⟩ := h.laid_tokens (List.nil_append source.toList).symm
  rw [Text.bytes_nil, ← h.lex_eq] at hplaced hordered
  exact ⟨rfl, String.Pos.Raw.isValid_zero, hplaced, fun _ _ => Nat.zero_le _, hordered⟩

end ContractML

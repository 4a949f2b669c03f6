import ContractML.Position
import ContractML.Proofs.Lexemes
import ContractML.Proofs.Rows
import Mathlib.Data.List.DropRight

/-!
# Lines and columns of a text

A reader of a report finds a place by its line and its column. The line is one more than the number
of line feeds before the place, and the column one more than the number of characters since the last
of them. Going over a character leads to a later line, or further right in the same line. So the
places of a text come in the order of their offsets, and no two of them look alike.

## Main definitions

* `Position.Before` — the order of places: by line, and by column inside a line.

## Main results

* `Position.after_first` — the place after a text, counted in the text.
* `Position.Before.after` — **a place after more characters is later**.
* `Position.ofOffset_identifies` — **the line and the column of an offset identify it**.
-/

namespace ContractML

open Text (bytes)

namespace Position

/-! ### Places after a text -/

/-- The place after a text, counted in the text. -/
theorem after_first (cs : List Char) :
    first.after cs = ⟨1 + cs.count '\n', 1 + (cs.rtakeWhile (· ≠ '\n')).length⟩ := by
  -- One more character at the end is one more step.
  induction cs using List.reverseRecOn with
  | nil => rfl
  | append_singleton cs c ih =>
    rw [after_append, ih]
    by_cases hc : c = '\n'
    · rw [List.rtakeWhile_concat_neg _ _ _ (by simp [hc])]
      simp [after, step, hc, Nat.add_assoc]
    · rw [List.rtakeWhile_concat_pos _ _ _ (by simp [hc])]
      simp [after, step, hc, Nat.add_assoc]

/-- The bytes of a text lead to the place after the text. -/
theorem advance?_append (line column : Nat) (cs ds : List Char) :
    advance? line column (cs ++ ds) (bytes cs) = some (after ⟨line, column⟩ cs) := by
  induction cs generalizing line column with
  | nil => cases ds <;> simp [advance?]
  | cons c cs ih =>
    have hpos := c.utf8Size_pos
    have hbytes : bytes (c :: cs) = c.utf8Size + bytes cs := rfl
    rw [List.cons_append, advance?, if_neg (by omega), if_neg (by omega), hbytes,
      Nat.add_sub_cancel_left, ih, ih]
    by_cases hc : c = '\n' <;> simp [after, step, hc]

theorem ofOffset_append (cs ds : List Char) : ofOffset (cs ++ ds) (bytes cs) = first.after cs := by
  rw [ofOffset, advance?_append]
  rfl

/-! ### The order of places -/

/-- The first place stands in an earlier line, or further left in the same line. -/
def Before (p q : Position) : Prop := p.line < q.line ∨ p.line = q.line ∧ p.column < q.column

theorem Before.trans {p q r : Position} (h : p.Before q) (h' : q.Before r) : p.Before r := by
  unfold Before at *
  omega

theorem Before.ne {p q : Position} (h : p.Before q) : p ≠ q := by
  rintro rfl
  unfold Before at h
  omega

theorem before_step (p : Position) (c : Char) : p.Before (p.step c) := by
  unfold step Before
  split <;> simp

/-- **A place after more characters is later.** -/
theorem Before.after (p : Position) {cs : List Char} (h : cs ≠ []) : p.Before (p.after cs) := by
  induction cs generalizing p with
  | nil => exact absurd rfl h
  | cons c cs ih =>
    have hstep := p.before_step c
    by_cases hcs : cs = []
    · subst hcs
      exact hstep
    · exact hstep.trans (ih (p.step c) hcs)

/-- Of two parts at the beginning of a text, the longer one is the shorter one and more. -/
theorem exists_append_of_bytes_lt {cs ds cs' ds' : List Char} (h : cs ++ ds = cs' ++ ds')
    (hlt : bytes cs < bytes cs') : ∃ m, m ≠ [] ∧ cs' = cs ++ m := by
  rcases List.append_eq_append_iff.mp h with ⟨m, rfl, -⟩ | ⟨m, rfl, -⟩
  · refine ⟨m, ?_, rfl⟩
    rintro rfl
    rw [List.append_nil] at hlt
    omega
  · rw [Text.bytes_append] at hlt
    omega

/-- A boundary between characters stands after a part of the text. -/
theorem exists_append_of_isValid {source : String} {n : Nat}
    (h : String.Pos.Raw.IsValid source ⟨n⟩) :
    ∃ cs ds, source.toList = cs ++ ds ∧ n = bytes cs := by
  obtain ⟨before, after, rfl, hn⟩ := String.Pos.Raw.isValid_iff_exists_append.mp h
  refine ⟨before.toList, after.toList, String.toList_append, ?_⟩
  rw [Text.bytes_toList]
  exact congrArg String.Pos.Raw.byteIdx hn

/-- The places of boundaries come in the order of their offsets. -/
theorem before_ofOffset {source : String} {n m : Nat} (hn : String.Pos.Raw.IsValid source ⟨n⟩)
    (hm : String.Pos.Raw.IsValid source ⟨m⟩) (h : n < m) :
    (ofOffset source.toList n).Before (ofOffset source.toList m) := by
  obtain ⟨cs, ds, hsource, rfl⟩ := exists_append_of_isValid hn
  obtain ⟨cs', ds', hsource', rfl⟩ := exists_append_of_isValid hm
  obtain ⟨more, hmore, rfl⟩ := exists_append_of_bytes_lt (hsource.symm.trans hsource') h
  rw [hsource, ofOffset_append, ← hsource, hsource', ofOffset_append, after_append]
  exact .after _ hmore

/-- **The line and the column of an offset identify it.** At each boundary between characters of a
text, the line is one more than the number of line feeds before it, and the column is one more than
the number of characters between the last of them, or the beginning, and the boundary. So the
boundaries are shown in their order, and two different ones are never shown alike. -/
theorem ofOffset_identifies (source : String) :
    (∀ before after : String, source = before ++ after →
      ofOffset source.toList before.utf8ByteSize =
        ⟨1 + before.toList.count '\n', 1 + (before.toList.rtakeWhile (· ≠ '\n')).length⟩) ∧
      ∀ n m, String.Pos.Raw.IsValid source ⟨n⟩ → String.Pos.Raw.IsValid source ⟨m⟩ →
        (n < m → (ofOffset source.toList n).Before (ofOffset source.toList m)) ∧
          (ofOffset source.toList n = ofOffset source.toList m → n = m) := by
  refine ⟨?_, fun n m hn hm => ⟨before_ofOffset hn hm, fun h => ?_⟩⟩
  · rintro before after rfl
    rw [String.toList_append, ← Text.bytes_toList, ofOffset_append, after_first]
  · rcases Nat.lt_trichotomy n m with hlt | heq | hgt
    · exact absurd h (before_ofOffset hn hm hlt).ne
    · exact heq
    · exact absurd h.symm (before_ofOffset hm hn hgt).ne

/-- A letter of two bytes before a line feed: the line feed stands in the second column of the first
line, and what follows it begins the second line. -/
theorem ofOffset_identifies_multibyte :
    let source := "é\nab\n"
    String.Pos.Raw.IsValid source ⟨2⟩ ∧ String.Pos.Raw.IsValid source ⟨3⟩ ∧
      ofOffset source.toList 2 = ⟨1, 2⟩ ∧ ofOffset source.toList 3 = ⟨2, 1⟩ ∧
      (ofOffset source.toList 2).Before (ofOffset source.toList 3) := by
  have hn : String.Pos.Raw.IsValid "é\nab\n" ⟨2⟩ := isValid_utf8ByteSize "é" "\nab\n"
  have hm : String.Pos.Raw.IsValid "é\nab\n" ⟨3⟩ := isValid_utf8ByteSize "é\n" "ab\n"
  obtain ⟨hcount, horder⟩ := ofOffset_identifies "é\nab\n"
  exact ⟨hn, hm, hcount "é" "\nab\n" (by decide), hcount "é\n" "ab\n" (by decide),
    (horder 2 3 hn hm).1 (by decide)⟩

end Position

end ContractML

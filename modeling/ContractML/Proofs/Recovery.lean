import ContractML.Proofs.Lexemes
import ContractML.Proofs.Locality

/-!
# Recovery from syntax errors

A source text is cut after each of its terminators. Every slice is read as if it stood alone, and
reading the whole text gives what reading the slices one by one gives, at the places where they
stand. So a malformed statement does not change how another one is read.

## Main definitions

* `Slice`, `Cut`, `Cut.ofSource` — the slices of a text.
* `Entry`, `Program.entries` — what reading one statement gives, and what reading a text gives.

## Main results

* `Cut.cuts` — the slices of a text consist of lexemes, and the last lexeme of each is a terminator.
* `Program.recover_eq` — the recovering reader collects the entries of a text.
* `Cut.Cuts.entriesFrom_eq` — the entries of a text are those of its slices.
* `Program.recover_isolates_statements` — **recovery isolates each statement**.
-/

namespace ContractML

open Text (bytes)

/-! ### Slices -/

/-- The characters of the first `k` bytes of a text, and the others. -/
def Text.splitBytes : (k : Nat) → List Char → List Char × List Char
  | _, [] => ([], [])
  | k, c :: cs =>
    if k = 0 then ([], c :: cs)
    else
      let (u, w) := splitBytes (k - c.utf8Size) cs
      (c :: u, w)

theorem Text.splitBytes_append (u w : List Char) : splitBytes (bytes u) (u ++ w) = (u, w) := by
  induction u with
  | nil => cases w <;> rfl
  | cons c u ih =>
    have hpos := c.utf8Size_pos
    rw [List.cons_append, splitBytes, Text.bytes_cons, if_neg (by omega), Nat.add_sub_cancel_left,
      ih]

/-- A part of a text, and the offset at which it begins. -/
structure Slice where
  offset : Nat
  text : String

/-- The parts of a text: those that end in a terminator, and what is left. -/
structure Cut where
  closed : List Slice
  tail : Slice

namespace Cut

/-- All slices of a text, in order. -/
def slices (c : Cut) : List Slice := c.closed ++ [c.tail]

/-- The text `cs`, which begins at offset `n`, cut at the offsets `stops`. -/
def ofStops : (stops : List Nat) → (n : Nat) → (cs : List Char) → Cut
  | [], n, cs => ⟨[], ⟨n, String.ofList cs⟩⟩
  | stop :: stops, n, cs =>
    let (u, w) := Text.splitBytes (stop - n) cs
    let rest := ofStops stops stop w
    ⟨⟨n, String.ofList u⟩ :: rest.closed, rest.tail⟩

/-- Where the terminators among the tokens end. -/
def stops (ts : List Token) : List Nat :=
  (ts.filter fun t => t.kind.isTerminator).map fun t => t.span.stop

/-- A source text cut after each of its terminators. -/
def ofSource (source : String) : Cut := ofStops (stops (lex source)) 0 source.toList

example : (ofSource "(* ;; *) 1;; \";;\"").slices.map (fun p => (p.offset, p.text)) =
    [(0, "(* ;; *) 1;;"), (12, " \";;\"")] := by
  decide +kernel

/-- The cut of the text `cs`, which begins at offset `n`, in terms of its lexemes. -/
inductive Cuts : (n : Nat) → (cs : List Char) → (ls : List Lexeme) → Cut → Prop where
  | tail {n : Nat} {cs : List Char} {ls : List Lexeme} (lexes : Lexes cs ls)
      (plain : ∀ l ∈ ls, l.kind.isTerminator = false) : Cuts n cs ls ⟨[], ⟨n, String.ofList cs⟩⟩
  | closed {n : Nat} {u w : List Char} {l : Lexeme} {before after : List Lexeme} {c : Cut}
      (lexes : Lexes u (before ++ [l])) (plain : ∀ l ∈ before, l.kind.isTerminator = false)
      (ends : l.kind.isTerminator = true) (suffix : [';', ';'] <:+ u)
      (size : bytes u = Lexeme.extent (before ++ [l])) (rest : Cuts (n + bytes u) w after c) :
      Cuts n (u ++ w) (before ++ l :: after) ⟨⟨n, String.ofList u⟩ :: c.closed, c.tail⟩

theorem stops_tokens_of_plain {ls : List Lexeme} (h : ∀ l ∈ ls, l.kind.isTerminator = false)
    (n : Nat) : stops (Lexeme.tokens n ls) = [] := by
  induction ls generalizing n with
  | nil => rfl
  | cons l ls ih =>
    have hl : (l.token n).kind.isTerminator = false := h l List.mem_cons_self
    have hls := ih (fun k hk => h k (List.mem_cons_of_mem l hk)) (n + l.size)
    simpa [stops, hl] using hls

theorem stops_tokens_append {before after : List Lexeme} {l : Lexeme}
    (h : ∀ l ∈ before, l.kind.isTerminator = false) (hl : l.kind.isTerminator = true) (n : Nat) :
    stops (Lexeme.tokens n (before ++ l :: after)) =
      (n + Lexeme.extent (before ++ [l])) ::
        stops (Lexeme.tokens (n + Lexeme.extent (before ++ [l])) after) := by
  have hbefore : (Lexeme.tokens n before).filter (fun t => t.kind.isTerminator) = [] :=
    List.map_eq_nil_iff.mp (stops_tokens_of_plain h n)
  rw [Lexeme.tokens_append, Lexeme.tokens_cons, stops, List.filter_append, hbefore]
  simp [stops, Lexeme.token, hl, Nat.add_assoc]

theorem cuts_ofStops {cs : List Char} {ls : List Lexeme} (h : Lexes cs ls) (n : Nat) :
    Cuts n cs ls (ofStops (stops (Lexeme.tokens n ls)) n cs) := by
  -- one slice after the other: what follows the first terminator has fewer lexemes
  induction hk : ls.length using Nat.strongRecOn generalizing cs ls n with
  | ind k ih =>
    cases hfind : ls.find? fun l => l.kind.isTerminator with
    | none =>
      have hplain : ∀ l ∈ ls, l.kind.isTerminator = false := by simpa using hfind
      rw [stops_tokens_of_plain hplain]
      exact .tail h hplain
    | some l =>
      obtain ⟨hl, before, after, rfl, hbefore⟩ := List.find?_eq_some_iff_append.mp hfind
      have hbefore : ∀ l ∈ before, l.kind.isTerminator = false := by simpa using hbefore
      -- The text is cut after the first terminator.
      obtain ⟨u, w, rfl, hu, hw, hsuffix, hsize⟩ := h.cut hl
      have hshort : after.length < k := by
        rw [← hk, List.length_append, List.length_cons]
        omega
      rw [stops_tokens_append hbefore hl, ofStops, ← hsize, Nat.add_sub_cancel_left,
        Text.splitBytes_append]
      exact .closed hu hbefore hl hsuffix hsize (ih after.length hshort hw _ rfl)

end Cut

/-! ### Entries -/

/-- What reading one statement gives. -/
inductive Entry where
  | statement (stmt : Stmt)
  | malformed (e : SyntaxError)

namespace Entry

def stmt? : Entry → Option Stmt
  | statement stmt => some stmt
  | malformed _ => none

def error? : Entry → Option SyntaxError
  | statement _ => none
  | malformed e => some e

def move (f : Nat → Nat) : Entry → Entry
  | statement stmt => statement (stmt.move f)
  | malformed e => malformed (e.move f)

theorem move_id (x : Entry) : x.move id = x := by
  cases x with
  | statement stmt => rw [move, Stmt.move_id]
  | malformed e => rfl

theorem stmt?_move (f : Nat → Nat) (x : Entry) : (x.move f).stmt? = x.stmt?.map (Stmt.move f) := by
  cases x <;> rfl

theorem error?_move (f : Nat → Nat) (x : Entry) :
    (x.move f).error? = x.error?.map (SyntaxError.move f) := by
  cases x <;> rfl

/-- The statements among entries. -/
def statements (xs : List Entry) : List Stmt := xs.filterMap stmt?

/-- The errors among entries. -/
def errors (xs : List Entry) : List SyntaxError := xs.filterMap error?

@[simp] theorem statements_statement (stmt : Stmt) (xs : List Entry) :
    statements (statement stmt :: xs) = stmt :: statements xs := rfl

@[simp] theorem statements_malformed (e : SyntaxError) (xs : List Entry) :
    statements (malformed e :: xs) = statements xs := rfl

@[simp] theorem errors_statement (stmt : Stmt) (xs : List Entry) :
    errors (statement stmt :: xs) = errors xs := rfl

@[simp] theorem errors_malformed (e : SyntaxError) (xs : List Entry) :
    errors (malformed e :: xs) = e :: errors xs := rfl

theorem mem_statements {stmt : Stmt} {xs : List Entry} :
    stmt ∈ statements xs ↔ statement stmt ∈ xs := by
  induction xs with
  | nil => simp [statements]
  | cons x xs ih => cases x <;> simp [ih]

theorem mem_errors {e : SyntaxError} {xs : List Entry} : e ∈ errors xs ↔ malformed e ∈ xs := by
  induction xs with
  | nil => simp [errors]
  | cons x xs ih => cases x <;> simp [ih]

/-- What the parser gives for the statement at hand. -/
def first (steps : Nat) (s : Stream) : Entry :=
  match Parse.statement steps s with
  | .ok stmt _ => statement stmt
  | .error e _ => malformed e

end Entry

namespace Program

/-- The entries of a stream, statement by statement, at most `fuel` of them. -/
def entriesFrom (steps : Nat) : (fuel : Nat) → Stream → List Entry
  | 0, _ => []
  | fuel + 1, s =>
    if s.tokens.isEmpty then []
    else Entry.first steps s :: entriesFrom steps fuel s.skipStatement

/-- The entries of a source text. -/
def entries (source : String) : List Entry :=
  entriesFrom (stepsFor (lex source).length) (lex source).length
    (.ofTokens (lex source) source.utf8ByteSize)

theorem entriesFrom_of_isEmpty (steps fuel : Nat) {s : Stream} (h : s.tokens = []) :
    entriesFrom steps fuel s = [] := by
  cases fuel with
  | zero => rfl
  | succ fuel => rw [entriesFrom, h]; rfl

/-- The reader gives the parser steps enough for all its tokens. -/
theorem le_stepsFor (tokens : Nat) : 8 * tokens + 6 ≤ stepsFor tokens := by
  rw [stepsFor]
  omega

/-- Steps enough for a stream that stands alone. -/
theorem ready_alone {steps : Nat} {s : Stream} (h : 8 * s.tokens.length + 6 ≤ steps) :
    Parse.Ready ⟨id, monotone_id, [], s.eof⟩ 6 steps steps s :=
  ⟨.inl ⟨rfl, rfl⟩, by omega⟩

/-- A statement that is read ends where the next one is looked for after an error. -/
theorem statement_eq {steps : Nat} {s : Stream} (h : 8 * s.tokens.length + 6 ≤ steps) :
    match Parse.statement steps s with
    | .ok stmt t => t = s.skipStatement ∧ stmt.span.start = s.span.start
    | .error e t =>
      t.skipStatement = s.skipStatement ∧ s.Leads t ∧ e.span = t.span ∧
        e.cause ≠ .outOfSteps := by
  -- The site is the stream itself, so that locality speaks about one run.
  have hlocal := Parse.statement_local (ready_alone h)
  cases hx : Parse.statement steps s with
  | ok stmt t =>
    rw [hx] at hlocal
    revert hlocal
    cases Parse.statement steps _ with
    | ok stmt' u => exact fun h => ⟨h.2.1, h.2.2.2⟩
    | error e' u => exact False.elim
  | error e t =>
    rw [hx] at hlocal
    revert hlocal
    cases Parse.statement steps _ with
    | ok stmt' u => exact False.elim
    | error e' u => exact fun h => ⟨h.2.1.skipStatement_eq, h.2.1, h.2.2.2⟩

theorem readFrom_eq {steps start fuel : Nat} {s : Stream} (hsteps : 8 * s.tokens.length + 6 ≤ steps)
    (hfuel : s.tokens.length ≤ fuel) (body : List Stmt) (errors : List SyntaxError) :
    (readFrom true steps start fuel s body errors).program.body =
        body.reverse ++ Entry.statements (entriesFrom steps fuel s) ∧
      (readFrom true steps start fuel s body errors).errors =
        errors.reverse ++ Entry.errors (entriesFrom steps fuel s) := by
  induction fuel generalizing s body errors with
  | zero => simp [readFrom, entriesFrom, Entry.statements, Entry.errors]
  | succ fuel ih =>
    obtain ⟨tokens, lastStop, eof⟩ := s
    cases tokens with
    | nil => simp [readFrom, entriesFrom, Entry.statements, Entry.errors]
    | cons t ts =>
      have hstatement := statement_eq hsteps
      have hlt := Stream.length_skipStatement_lt t ts lastStop eof
      dsimp only at hsteps hfuel
      have hrest := fun body errors => ih (s := (Stream.mk (t :: ts) lastStop eof).skipStatement)
        (by omega) (by omega) body errors
      simp only [readFrom, entriesFrom, List.isEmpty_cons, Bool.false_eq_true, if_false,
        Entry.first]
      cases hx : Parse.statement steps ⟨t :: ts, lastStop, eof⟩ with
      | ok stmt u =>
        rw [hx] at hstatement
        obtain ⟨rfl, -⟩ := hstatement
        have hread := hrest (stmt :: body) errors
        simpa using hread
      | error e u =>
        rw [hx] at hstatement
        have hread := hrest body (e :: errors)
        -- Wherever the statement failed, reading goes on after the same terminator.
        rw [← hstatement.1] at hread
        simpa [hstatement.1] using hread

/-- The recovering reader collects the statements and the errors among the entries. -/
theorem recover_eq (source : String) :
    (recover source).program.body = Entry.statements (entries source) ∧
      (recover source).errors = Entry.errors (entries source) := by
  exact readFrom_eq (s := .ofTokens (lex source) source.utf8ByteSize) (le_stepsFor _)
    (Nat.le_refl _) [] []

end Program

/-! ### Entries of slices -/

theorem Entry.first_inside {S : Site} {n m : Nat} {s : Stream} (h : Parse.Ready S 6 n m s) :
    Entry.first m (s.inside S) = (Entry.first n s).move S.move := by
  have hlocal := Parse.statement_local h
  revert hlocal
  unfold Entry.first
  cases Parse.statement n s with
  | ok stmt t =>
    cases Parse.statement m (s.inside S) with
    | ok stmt' u => exact fun h => congrArg Entry.statement h.1
    | error e' u => exact False.elim
  | error e t =>
    cases Parse.statement m (s.inside S) with
    | ok stmt' u => exact False.elim
    | error e' u => exact fun h => congrArg Entry.malformed h.1

theorem Program.entriesFrom_inside {S : Site} {n m : Nat} {s : Stream}
    (h : Parse.Ready S 6 n m s) (hne : s.tokens ≠ []) (fuel : Nat) :
    entriesFrom m (fuel + 1) (s.inside S) =
      (Entry.first n s).move S.move :: entriesFrom m fuel (s.skipStatement.inside S) := by
  have htokens : (s.inside S).tokens.isEmpty = false := by simp [Stream.inside, hne]
  rw [entriesFrom, htokens, if_neg Bool.false_ne_true, Entry.first_inside h,
    Stream.skipStatement_inside h.fits]

/-- The stream of a text that stands alone. -/
def Lexeme.stream (ls : List Lexeme) (size : Nat) : Stream := ⟨Lexeme.tokens 0 ls, 0, size⟩

theorem Lexes.ofTokens_eq {u : List Char} {ls : List Lexeme} (h : Lexes u ls) :
    Stream.ofTokens (lex (String.ofList u)) (String.ofList u).utf8ByteSize =
      Lexeme.stream ls (bytes u) := by
  rw [h.lex_ofList, Text.utf8ByteSize_ofList]
  rfl

theorem Lexes.entries_eq {u : List Char} {ls : List Lexeme} (h : Lexes u ls) :
    Program.entries (String.ofList u) =
      Program.entriesFrom (Program.stepsFor ls.length) ls.length (Lexeme.stream ls (bytes u)) := by
  rw [Program.entries, h.ofTokens_eq, h.lex_ofList, Lexeme.length_tokens]

/-- A text without another terminator than its last token has one entry, if it has a token. -/
theorem Lexes.entries_eq_singleton {u : List Char} {ls : List Lexeme} (h : Lexes u ls)
    (hne : ls ≠ []) (hskip : (Lexeme.stream ls (bytes u)).skipStatement.tokens = []) :
    Program.entries (String.ofList u) =
      [Entry.first (Program.stepsFor ls.length) (Lexeme.stream ls (bytes u))] := by
  rw [h.entries_eq]
  cases ls with
  | nil => exact absurd rfl hne
  | cons l ls =>
    rw [List.length_cons, Program.entriesFrom, Program.entriesFrom_of_isEmpty _ _ hskip]
    rfl

/-- Lexemes that are no terminators are passed over on the way to what follows them. -/
theorem Lexeme.exists_leads {ls : List Lexeme} (h : ∀ l ∈ ls, l.kind.isTerminator = false)
    (n lastStop eof : Nat) (ts : List Token) :
    ∃ lastStop', Stream.Leads ⟨Lexeme.tokens n ls ++ ts, lastStop, eof⟩ ⟨ts, lastStop', eof⟩ := by
  induction ls generalizing n lastStop with
  | nil => exact ⟨lastStop, .refl _⟩
  | cons l ls ih =>
    have hls : ∀ k ∈ ls, k.kind.isTerminator = false := fun k hk =>
      h k (List.mem_cons_of_mem l hk)
    obtain ⟨lastStop', hleads⟩ := ih hls (n + l.size) (n + l.size)
    exact ⟨lastStop', .step (h l List.mem_cons_self) hleads⟩

theorem Lexeme.skipStatement_plain {ls : List Lexeme} (h : ∀ l ∈ ls, l.kind.isTerminator = false)
    (size : Nat) : (Lexeme.stream ls size).skipStatement.tokens = [] := by
  obtain ⟨lastStop, hleads⟩ := exists_leads h 0 0 size []
  have hskip := hleads.skipStatement_eq
  rw [List.append_nil] at hskip
  rw [stream, ← hskip]
  rfl

theorem Lexeme.skipStatement_closed {ls : List Lexeme} {l : Lexeme}
    (h : ∀ l ∈ ls, l.kind.isTerminator = false) (hl : l.kind.isTerminator = true) (size : Nat) :
    (Lexeme.stream (ls ++ [l]) size).skipStatement = ⟨[], Lexeme.extent (ls ++ [l]), size⟩ := by
  obtain ⟨lastStop, hleads⟩ := exists_leads h 0 0 size (Lexeme.tokens (0 + Lexeme.extent ls) [l])
  have hskip := hleads.skipStatement_eq
  rw [stream, tokens_append, ← hskip, tokens_cons, Stream.skipStatement_terminator hl]
  simp [token]

theorem Lexeme.mem_stream (ls : List Lexeme) (l : Lexeme) (size : Nat) :
    l.token (0 + Lexeme.extent ls) ∈ (Lexeme.stream (ls ++ [l]) size).tokens := by
  rw [stream, tokens_append]
  exact List.mem_append_right _ List.mem_cons_self

/-- The entries of a slice at its place in the text. -/
def Slice.entries (p : Slice) : List Entry :=
  (Program.entries p.text).map (Entry.move (· + p.offset))

/-- The place of a slice in a text of `eof` bytes, before the tokens `rest`. -/
def Site.shift (n : Nat) (rest : List Token) (eof : Nat) : Site :=
  ⟨(· + n), monotone_add n, rest, eof⟩

theorem Lexeme.inside_shift (ls : List Lexeme) (size n : Nat) (rest : List Token) (eof : Nat) :
    (Lexeme.stream ls size).inside (.shift n rest eof) =
      ⟨Lexeme.tokens n ls ++ rest, n, eof⟩ := by
  have htokens := tokens_add 0 n ls
  rw [Nat.zero_add] at htokens
  simp [Stream.inside, stream, Site.shift, htokens]

namespace Lexes

open Program

variable {n steps fuel : Nat} {u : List Char} {l : Lexeme} {ls after : List Lexeme}

theorem entries_eq_closed (h : Lexes u (ls ++ [l]))
    (plain : ∀ l ∈ ls, l.kind.isTerminator = false) (ends : l.kind.isTerminator = true) :
    entries (String.ofList u) =
      [Entry.first (stepsFor (ls ++ [l]).length) (Lexeme.stream (ls ++ [l]) (bytes u))] := by
  have hskip := Lexeme.skipStatement_closed plain ends (bytes u)
  exact h.entries_eq_singleton (by simp) (by rw [hskip])

/-- What stands after the last terminator is read at its place as it is read alone. -/
theorem entriesFrom_tail (h : Lexes u ls) (plain : ∀ l ∈ ls, l.kind.isTerminator = false)
    (hsteps : 8 * ls.length + 8 ≤ steps) (hfuel : ls.length ≤ fuel) :
    entriesFrom steps fuel ⟨Lexeme.tokens n ls, n, n + bytes u⟩ =
      Slice.entries ⟨n, String.ofList u⟩ := by
  have hskip := Lexeme.skipStatement_plain plain (bytes u)
  rw [Slice.entries]
  cases ls with
  | nil =>
    rw [h.entries_eq, entriesFrom_of_isEmpty _ _ rfl, entriesFrom_of_isEmpty _ _ rfl]
    rfl
  | cons l ls =>
    obtain ⟨fuel, rfl⟩ := Nat.exists_eq_add_one_of_ne_zero (by simp at hfuel; omega : fuel ≠ 0)
    -- The slice stands at offset `n` with nothing after it, and ends at the end of the text.
    have hready : Parse.Ready (.shift n [] (n + bytes u)) 6 (stepsFor (l :: ls).length) steps
        (Lexeme.stream (l :: ls) (bytes u)) := by
      refine ⟨.inl ⟨rfl, Nat.add_comm _ _⟩, ?_⟩
      simp only [Lexeme.stream, Lexeme.length_tokens, stepsFor]
      omega
    have hread := entriesFrom_inside hready (List.cons_ne_nil _ _) fuel
    have hrest : ((Lexeme.stream (l :: ls) (bytes u)).skipStatement.inside
        (.shift n [] (n + bytes u))).tokens = [] := by
      rw [Stream.inside, hskip]
      rfl
    rw [Lexeme.inside_shift, List.append_nil, entriesFrom_of_isEmpty steps fuel hrest] at hread
    rw [hread, h.entries_eq_singleton (List.cons_ne_nil l ls) hskip]
    rfl

/-- A slice that ends in a terminator is read at its place as it is read alone, and reading goes on
after it. -/
theorem entriesFrom_closed {eof : Nat} (h : Lexes u (ls ++ [l]))
    (plain : ∀ l ∈ ls, l.kind.isTerminator = false) (ends : l.kind.isTerminator = true)
    (size : bytes u = Lexeme.extent (ls ++ [l])) (hsteps : 8 * (ls ++ [l]).length + 8 ≤ steps) :
    entriesFrom steps (fuel + 1) ⟨Lexeme.tokens n (ls ++ l :: after), n, eof⟩ =
      Slice.entries ⟨n, String.ofList u⟩ ++
        entriesFrom steps fuel ⟨Lexeme.tokens (n + bytes u) after, n + bytes u, eof⟩ := by
  have hskip := Lexeme.skipStatement_closed plain ends (bytes u)
  have hmem := Lexeme.mem_stream ls l (bytes u)
  -- The tokens after the slice do not matter, since it has a terminator.
  have hready : Parse.Ready (.shift n (Lexeme.tokens (n + bytes u) after) eof) 6
      (stepsFor (ls ++ [l]).length) steps (Lexeme.stream (ls ++ [l]) (bytes u)) := by
    refine ⟨.inr ⟨_, hmem, ends⟩, ?_⟩
    simp only [Lexeme.stream, Lexeme.length_tokens, stepsFor]
    omega
  have hread := entriesFrom_inside hready (List.ne_nil_of_mem hmem) fuel
  have htokens : Lexeme.tokens n (ls ++ [l]) ++ Lexeme.tokens (n + bytes u) after =
      Lexeme.tokens n (ls ++ l :: after) := by
    rw [size, ← Lexeme.tokens_append, List.append_assoc, List.singleton_append]
  have hrest : (Lexeme.stream (ls ++ [l]) (bytes u)).skipStatement.inside
      (.shift n (Lexeme.tokens (n + bytes u) after) eof) =
        ⟨Lexeme.tokens (n + bytes u) after, n + bytes u, eof⟩ := by
    rw [hskip, ← size]
    simp [Stream.inside, Site.shift, Nat.add_comm]
  rw [Lexeme.inside_shift, htokens, hrest] at hread
  rw [hread, Slice.entries, h.entries_eq_closed plain ends]
  rfl

end Lexes

namespace Cut.Cuts

variable {n : Nat} {cs : List Char} {ls : List Lexeme} {c : Cut}

/-- **The entries of a text are those of its slices**, each at the place of its slice. -/
theorem entriesFrom_eq (h : Cuts n cs ls c) {steps : Nat} (hsteps : 8 * ls.length + 8 ≤ steps) :
    ∀ fuel, ls.length ≤ fuel →
      Program.entriesFrom steps fuel ⟨Lexeme.tokens n ls, n, n + bytes cs⟩ =
        c.slices.flatMap Slice.entries := by
  induction h with
  | tail lexes plain =>
    intro fuel hfuel
    rw [lexes.entriesFrom_tail plain hsteps hfuel, slices, List.nil_append, List.flatMap_singleton]
  | @closed n u w l before after c lexes plain ends suffix size rest ih =>
    intro fuel hfuel
    rw [List.length_append, List.length_cons] at hsteps hfuel
    obtain ⟨fuel, rfl⟩ := Nat.exists_eq_add_one_of_ne_zero (by omega : fuel ≠ 0)
    have hslice : 8 * (before ++ [l]).length + 8 ≤ steps := by
      rw [List.length_append, List.length_singleton]
      omega
    -- A closed slice uses one unit of fuel and has at least one lexeme.
    have hrest := ih (by omega) fuel (by omega)
    rw [Text.bytes_append, ← Nat.add_assoc, lexes.entriesFrom_closed plain ends size hslice, hrest,
      slices, slices, List.cons_append, List.flatMap_cons]

/-- A slice that ends in a terminator has one entry. -/
theorem entries_closed (h : Cuts n cs ls c) :
    ∀ p ∈ c.closed, [';', ';'] <:+ p.text.toList ∧ ∃ x, Program.entries p.text = [x] := by
  induction h with
  | tail _ _ => exact nofun
  | @closed n u w l before after c lexes plain ends suffix size rest ih =>
    intro p hp
    rcases List.mem_cons.mp hp with rfl | hp
    · rw [String.toList_ofList]
      exact ⟨suffix, _, lexes.entries_eq_closed plain ends⟩
    · exact ih p hp

/-- What stands after the last terminator has one entry, if it has a token. -/
theorem entries_tail (h : Cuts n cs ls c) :
    (lex c.tail.text = [] → Program.entries c.tail.text = []) ∧
      (lex c.tail.text ≠ [] → ∃ x, Program.entries c.tail.text = [x]) := by
  induction h with
  | @tail n cs ls lexes plain =>
    dsimp only
    constructor
    · intro hnil
      rw [Program.entries, hnil]
      rfl
    · intro hne
      rw [lexes.lex_ofList] at hne
      have hls : ls ≠ [] := fun h => hne (by rw [h]; rfl)
      exact ⟨_, lexes.entries_eq_singleton hls (Lexeme.skipStatement_plain plain _)⟩
  | closed _ _ _ _ _ _ ih => exact ih

/-- The slices are the whole text. -/
theorem join_slices (h : Cuts n cs ls c) :
    String.join (c.slices.map Slice.text) = String.ofList cs := by
  induction h with
  | tail _ _ => simp [slices]
  | closed _ _ _ _ _ _ ih =>
    rw [slices] at ih ⊢
    rw [List.cons_append, List.map_cons, String.join_cons, ih, String.ofList_append]

/-- Each slice begins where those before it end. -/
theorem offset_eq (h : Cuts n cs ls c) {before after : List Slice} {p : Slice}
    (hp : c.slices = before ++ p :: after) :
    p.offset = n + (String.join (before.map Slice.text)).utf8ByteSize := by
  induction h generalizing before with
  | tail _ _ =>
    cases before with
    | nil => cases hp; simp
    | cons q before => simp [slices] at hp
  | closed _ _ _ _ _ _ ih =>
    cases before with
    | nil => cases hp; simp
    | cons q before =>
      obtain ⟨rfl, hrest⟩ := List.cons.inj hp
      have hoffset := ih hrest
      rw [hoffset, List.map_cons, String.join_cons, String.utf8ByteSize_append,
        Text.utf8ByteSize_ofList, Nat.add_assoc]

end Cut.Cuts

theorem Cut.cuts (source : String) : ∃ ls, Cuts 0 source.toList ls (ofSource source) := by
  obtain ⟨ls, h⟩ := exists_lexes source.toList
  refine ⟨ls, ?_⟩
  rw [ofSource, h.lex_eq]
  exact cuts_ofStops h 0

namespace Program

theorem entries_eq_flatMap (source : String) :
    entries source = (Cut.ofSource source).slices.flatMap Slice.entries := by
  obtain ⟨ls, h⟩ := exists_lexes source.toList
  have hcuts := Cut.cuts_ofStops h 0
  have hread := hcuts.entriesFrom_eq (Nat.le_refl (stepsFor ls.length)) ls.length (Nat.le_refl _)
  rw [Nat.zero_add, Text.bytes_toList] at hread
  rw [entries, Cut.ofSource, h.lex_eq, Lexeme.length_tokens, Stream.ofTokens, hread]

/-- The statements that the recovering reader gives are those of the slices. -/
theorem body_recover (source : String) :
    (recover source).program.body = (Cut.ofSource source).slices.flatMap fun p =>
      (recover p.text).program.body.map (Stmt.shift p.offset) := by
  simp only [(recover_eq _).1, entries_eq_flatMap source, Entry.statements,
    List.filterMap_flatMap, Slice.entries, List.filterMap_map, List.map_filterMap,
    Function.comp_def, Entry.stmt?_move]
  rfl

/-- The errors that the recovering reader gives are those of the slices. -/
theorem errors_recover (source : String) :
    (recover source).errors = (Cut.ofSource source).slices.flatMap fun p =>
      (recover p.text).errors.map (SyntaxError.shift p.offset) := by
  simp only [(recover_eq _).2, entries_eq_flatMap source, Entry.errors,
    List.filterMap_flatMap, Slice.entries, List.filterMap_map, List.map_filterMap,
    Function.comp_def, Entry.error?_move]
  rfl

end Program

/-- The number of statements and errors that were read. -/
def Reading.size (r : Reading) : Nat := r.program.body.length + r.errors.length

theorem Program.size_recover (source : String) :
    (recover source).size = (entries source).length := by
  rw [Reading.size, (recover_eq source).1, (recover_eq source).2]
  induction entries source with
  | nil => rfl
  | cons x xs ih => cases x <;> simp <;> omega

/-- **Recovery isolates each statement.** A source text is its slices, one after the other, cut
after each of its terminators. A slice that ends in a terminator gives one statement or one error
when it is read alone, and so does the rest of the text unless it has no token. The whole text gives
the statements and the errors of its slices, in order, moved to where the slices stand. -/
theorem Program.recover_isolates_statements (source : String) :
    String.join ((Cut.ofSource source).slices.map Slice.text) = source ∧
      (∀ before p after, (Cut.ofSource source).slices = before ++ p :: after →
        p.offset = (String.join (before.map Slice.text)).utf8ByteSize) ∧
      (∀ p ∈ (Cut.ofSource source).closed,
        [';', ';'] <:+ p.text.toList ∧ (recover p.text).size = 1) ∧
      (recover (Cut.ofSource source).tail.text).size =
        (if lex (Cut.ofSource source).tail.text = [] then 0 else 1) ∧
      (recover source).program.body = ((Cut.ofSource source).slices.flatMap fun p =>
        (recover p.text).program.body.map (Stmt.shift p.offset)) ∧
      (recover source).errors = ((Cut.ofSource source).slices.flatMap fun p =>
        (recover p.text).errors.map (SyntaxError.shift p.offset)) := by
  obtain ⟨ls, h⟩ := Cut.cuts source
  refine ⟨?_, ?_, ?_, ?_, body_recover source, errors_recover source⟩
  · rw [h.join_slices, String.ofList_toList]
  · intro before p after hp
    rw [h.offset_eq hp, Nat.zero_add]
  · intro p hp
    obtain ⟨hsuffix, x, hx⟩ := h.entries_closed p hp
    exact ⟨hsuffix, by rw [size_recover, hx, List.length_singleton]⟩
  · -- The last slice may hold nothing but trivia.
    obtain ⟨hnil, hne⟩ := h.entries_tail
    rw [size_recover]
    split
    next hlex => rw [hnil hlex, List.length_nil]
    next hlex =>
      obtain ⟨x, hx⟩ := hne hlex
      rw [hx, List.length_singleton]

/-- The second of three statements is malformed, and the last one has no terminator. -/
theorem Program.recover_isolates_statements_malformed :
    let source := "let x = 1;; let = 2;; x"
    let cut := Cut.ofSource source
    cut.closed.map Slice.text = ["let x = 1;;", " let = 2;;"] ∧ cut.tail.text = " x" ∧
      (recover source).errors.map SyntaxError.message = ["expected identifier, found `=`"] ∧
      (∀ p ∈ cut.closed, (recover p.text).size = 1) ∧
      (recover source).program.body = (cut.slices.flatMap fun p =>
        (recover p.text).program.body.map (Stmt.shift p.offset)) := by
  intro source cut
  obtain ⟨-, -, hclosed, -, hbody, -⟩ := recover_isolates_statements source
  refine ⟨by decide +kernel, by decide +kernel, by decide +kernel, ?_, hbody⟩
  exact fun p hp => (hclosed p hp).2

end ContractML

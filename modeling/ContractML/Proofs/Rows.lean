import ContractML.Expr.Basic
import Mathlib.Order.Nat

/-!
# Rows of nodes

The nodes of a syntax tree have spans. A node stands where it should when its span takes some
characters of the text, its parts stand inside it one after the other, and a name is what the text
says there.

Whatever a parser has read so far is a row of such nodes between two offsets, and every construction
makes one node out of a row.

## Main definitions

* `Span.Within`, `Span.Reads` — a span of a text, and what stands there.
* `Node`, `Node.parts`, `Node.Contains` — the nodes of a syntax tree.
* `Node.Placed`, `Node.Laid` — a node that stands where it should; all nodes inside it, too.
* `Row` — nodes between two offsets.

## Main results

* `Row.append` — a row after a row.
* `Row.node`, `Row.same`, `Row.between` — the nodes that are made out of rows.
-/

namespace ContractML

/-! ### Spans of a text -/

/-- The span reaches from one boundary between characters of the text to another. -/
structure Span.Within (source : String) (s : Span) : Prop where
  start_le : s.start ≤ s.stop
  stop_le : s.stop ≤ source.utf8ByteSize
  start_valid : String.Pos.Raw.IsValid source ⟨s.start⟩
  stop_valid : String.Pos.Raw.IsValid source ⟨s.stop⟩

/-- The characters of the source at the span are those of the text. -/
def Span.Reads (source : String) (s : Span) (text : String) : Prop :=
  ∃ before after, source = before ++ text ++ after ∧ before.utf8ByteSize = s.start ∧
    (before ++ text).utf8ByteSize = s.stop

/-- The first span lies inside the second one. -/
def Span.Inside (inner outer : Span) : Prop :=
  outer.start ≤ inner.start ∧ inner.stop ≤ outer.stop

theorem le_of_isValid {source : String} {n : Nat} (h : String.Pos.Raw.IsValid source ⟨n⟩) :
    n ≤ source.utf8ByteSize :=
  h.le_rawEndPos

theorem isValid_utf8ByteSize (before after : String) :
    String.Pos.Raw.IsValid (before ++ after) ⟨before.utf8ByteSize⟩ :=
  String.Pos.Raw.isValid_iff_exists_append.mpr ⟨before, after, rfl, rfl⟩

theorem Span.within_of_valid {source : String} {s : Span} (h : s.start ≤ s.stop)
    (hstart : String.Pos.Raw.IsValid source ⟨s.start⟩)
    (hstop : String.Pos.Raw.IsValid source ⟨s.stop⟩) : s.Within source :=
  ⟨h, le_of_isValid hstop, hstart, hstop⟩

/-- Where something can be read there is a span of the text. -/
theorem Span.Reads.within {source text : String} {s : Span} (h : s.Reads source text) :
    s.Within source := by
  obtain ⟨before, after, rfl, hstart, hstop⟩ := h
  refine within_of_valid ?_ ?_ ?_
  · rw [← hstart, ← hstop, String.utf8ByteSize_append]
    omega
  · rw [← hstart, String.append_assoc]
    exact isValid_utf8ByteSize before (text ++ after)
  · rw [← hstop]
    exact isValid_utf8ByteSize (before ++ text) after

/-! ### Nodes -/

/-- A node of a syntax tree. -/
inductive Node where
  /-- A name. -/
  | ident (x : Ident)
  /-- An expression. -/
  | expr (e : Expr)
  /-- A contract. -/
  | contract (c : ContractExpr)
  /-- A statement. -/
  | stmt (s : Stmt)

namespace Node

/-- Where a node stands. -/
def span : Node → Span
  | ident x => x.span
  | expr e => e.span
  | contract c => c.span
  | stmt s => s.span

/-- The parts of a node, from left to right. -/
def parts : Node → List Node
  | ident _ => []
  | expr (.lit _ _) => []
  | expr (.var x) => [ident x]
  | expr (.unary _ e _) => [expr e]
  | expr (.binary _ l r _) => [expr l, expr r]
  | expr (.logical _ l r _) => [expr l, expr r]
  | expr (.cond c t e _) => [expr c, expr t, expr e]
  | expr (.lambda ps b _) => ps.map ident ++ [expr b]
  | expr (.call f args _) => expr f :: args.map expr
  | expr (.letIn x v b _) => [ident x, expr v, expr b]
  | expr (.seq es _) => es.map expr
  | expr (.monitored e c _ _) => [expr e, contract c]
  | contract (.flat e) => [expr e]
  | contract (.arrow ds r _) => ds.map contract ++ [contract r]
  | stmt (.expr e _) => [expr e]
  | stmt (.contract x c _) => [ident x, contract c]
  | stmt (.define x e _) => [ident x, expr e]

/-- The second node is the first one or stands somewhere inside it. -/
inductive Contains : Node → Node → Prop
  | refl (n : Node) : Contains n n
  | part {n p m : Node} : p ∈ n.parts → p.Contains m → n.Contains m

/-- A node that stands where it should: it takes some characters of the text, its parts stand inside
it one after the other, and a name is what the text says there. -/
structure Placed (source : String) (n : Node) : Prop where
  nonempty : n.span.start < n.span.stop
  within : n.span.Within source
  inside : ∀ p ∈ n.parts, p.span.Inside n.span
  ordered : n.parts.Pairwise fun p q => p.span.stop ≤ q.span.start
  text : ∀ x, n = ident x → x.span.Reads source x.text

/-- A node that stands where it should, together with all nodes inside it. -/
def Laid (source : String) (n : Node) : Prop := ∀ m, n.Contains m → m.Placed source

theorem Laid.placed {source : String} {n : Node} (h : n.Laid source) : n.Placed source :=
  h n (.refl n)

theorem laid_of_parts {source : String} {n : Node} (h : n.Placed source)
    (hparts : ∀ p ∈ n.parts, p.Laid source) : n.Laid source := by
  intro m hm
  cases hm with
  | refl => exact h
  | part hp hm => exact hparts _ hp m hm

end Node

/-! ### Rows -/

/-- The nodes stand between two offsets, one after the other, and so does everything inside them. -/
structure Row (source : String) (lo hi : Nat) (ns : List Node) : Prop where
  le : lo ≤ hi
  laid : ∀ n ∈ ns, n.Laid source
  low : ∀ n ∈ ns, lo ≤ n.span.start
  high : ∀ n ∈ ns, n.span.stop ≤ hi
  ordered : ns.Pairwise fun p q => p.span.stop ≤ q.span.start

namespace Row

variable {source : String} {lo mid hi : Nat} {n p q : Node} {ns ms : List Node}

theorem nil (h : lo ≤ hi) : Row source lo hi [] := ⟨h, by simp, by simp, by simp, .nil⟩

theorem singleton (h : n.Laid source) (hlo : lo ≤ n.span.start) (hhi : n.span.stop ≤ hi) :
    Row source lo hi [n] := by
  refine ⟨?_, by simpa using h, by simpa using hlo, by simpa using hhi, List.pairwise_singleton _ _⟩
  exact hlo.trans (h.placed.nonempty.le.trans hhi)

theorem mono {lo' hi' : Nat} (h : Row source lo hi ns) (hlo : lo' ≤ lo) (hhi : hi ≤ hi') :
    Row source lo' hi' ns where
  le := hlo.trans (h.le.trans hhi)
  laid := h.laid
  low n hn := hlo.trans (h.low n hn)
  high n hn := (h.high n hn).trans hhi
  ordered := h.ordered

theorem append (h : Row source lo mid ns) (h' : Row source mid hi ms) :
    Row source lo hi (ns ++ ms) where
  le := h.le.trans h'.le
  laid := List.forall_mem_append.mpr ⟨h.laid, h'.laid⟩
  low := List.forall_mem_append.mpr ⟨h.low, fun n hn => h.le.trans (h'.low n hn)⟩
  high := List.forall_mem_append.mpr ⟨fun n hn => (h.high n hn).trans h'.le, h'.high⟩
  ordered := List.pairwise_append.mpr
    ⟨h.ordered, h'.ordered, fun p hp q hq => (h.high p hp).trans (h'.low q hq)⟩

/-- A row of one node at least takes some characters. -/
theorem lt (h : Row source lo hi ns) (hn : n ∈ ns) : lo < hi :=
  (h.low n hn).trans_lt ((h.laid n hn).placed.nonempty.trans_le (h.high n hn))

/-- A row can be taken to begin where its first node begins. -/
theorem from_head (h : Row source lo hi (n :: ns)) : Row source n.span.start hi (n :: ns) := by
  have hn := (h.laid n List.mem_cons_self).placed.nonempty
  refine ⟨hn.le.trans (h.high n List.mem_cons_self), h.laid, ?_, h.high, h.ordered⟩
  refine List.forall_mem_cons.mpr ⟨le_rfl, fun m hm => ?_⟩
  exact hn.le.trans (List.rel_of_pairwise_cons h.ordered hm)

/-- A node that reaches over its parts, from one boundary between characters to another. -/
theorem node (h : Row source lo hi n.parts) (hne : n.parts ≠ [])
    (hstart : String.Pos.Raw.IsValid source ⟨lo⟩) (hstop : String.Pos.Raw.IsValid source ⟨hi⟩)
    (hspan : n.span = ⟨lo, hi⟩) : Row source lo hi [n] := by
  obtain ⟨p, hp⟩ := List.exists_mem_of_ne_nil _ hne
  have hplaced : n.Placed source := by
    refine ⟨?_, ?_, fun q hq => ?_, h.ordered, ?_⟩
    · rw [hspan]
      exact h.lt hp
    · rw [hspan]
      exact Span.within_of_valid h.le hstart hstop
    · rw [hspan]
      exact ⟨h.low q hq, h.high q hq⟩
    · rintro x rfl
      exact absurd rfl hne
  exact singleton (Node.laid_of_parts hplaced h.laid) (by rw [hspan]) (by rw [hspan])

/-- A node that stands where its only part stands. -/
theorem same (h : Row source lo hi [p]) (hparts : n.parts = [p]) (hspan : n.span = p.span) :
    Row source lo hi [n] := by
  have hp := h.laid p List.mem_cons_self
  have hrow : Row source p.span.start p.span.stop n.parts :=
    hparts ▸ singleton hp le_rfl le_rfl
  have hn := hrow.node (by simp [hparts]) hp.placed.within.start_valid hp.placed.within.stop_valid
    hspan
  exact hn.mono (h.low p List.mem_cons_self) (h.high p List.mem_cons_self)

/-- A node that reaches from its first part to its second one. -/
theorem between (h : Row source lo hi [p, q]) (hparts : n.parts = [p, q])
    (hspan : n.span = p.span.cover q.span) : Row source lo hi [n] := by
  have hp := (h.laid p List.mem_cons_self).placed
  have hq := (h.laid q (List.mem_cons_of_mem p List.mem_cons_self)).placed
  have hpq : p.span.stop ≤ q.span.start := List.rel_of_pairwise_cons h.ordered List.mem_cons_self
  -- The parts are in order, so covering them takes the start of the first and the end of the second
  -- one.
  have hcover : n.span = ⟨p.span.start, q.span.stop⟩ := by
    have hpp := hp.nonempty
    have hqq := hq.nonempty
    rw [hspan, Span.cover, Nat.min_eq_left (by omega), Nat.max_eq_right (by omega)]
  have hrow : Row source p.span.start q.span.stop n.parts := by
    rw [hparts]
    have hleft : Row source p.span.start p.span.stop [p] :=
      singleton (h.laid p List.mem_cons_self) le_rfl le_rfl
    have hright : Row source p.span.stop q.span.stop [q] :=
      singleton (h.laid q (List.mem_cons_of_mem p List.mem_cons_self)) hpq le_rfl
    exact hleft.append hright
  have hn := hrow.node (by simp [hparts]) hp.within.start_valid hq.within.stop_valid hcover
  exact hn.mono (h.low p List.mem_cons_self) (h.high q (List.mem_cons_of_mem p List.mem_cons_self))

end Row

end ContractML

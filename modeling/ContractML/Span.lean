/-!
# Source spans

A span is a range of byte offsets into the UTF-8 text of a program, closed at its start and open
at its end.

## Main definitions

* `Span` — a range of byte offsets.
* `Span.cover` — the least span that holds two spans.
-/

namespace ContractML

/-- A range of byte offsets of a source text, from `start` up to and without `stop`. -/
structure Span where
  /-- Offset of the first byte. -/
  start : Nat
  /-- Offset of the first byte after the range. -/
  stop : Nat
  deriving DecidableEq, Repr, Inhabited

namespace Span

/-- The span of a node that stands nowhere in a source text. -/
def nowhere : Span := ⟨0, 0⟩

/-- The least span that holds both spans. -/
def cover (s t : Span) : Span := ⟨min s.start t.start, max s.stop t.stop⟩

@[simp] theorem start_cover (s t : Span) : (s.cover t).start = min s.start t.start := rfl

@[simp] theorem stop_cover (s t : Span) : (s.cover t).stop = max s.stop t.stop := rfl

end Span

end ContractML

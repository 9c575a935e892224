/-!
# Spans

A span is a range of byte offsets into one source text. Every token, node and diagnostic carries
one.
-/

namespace Shellwright

/-- The bytes from `start` up to, and not including, `stop`. -/
structure Span where
  start : Nat
  stop : Nat
  deriving DecidableEq, Repr, Inhabited

namespace Span

/-- The span of nodes that stand nowhere in particular. -/
def zero : Span := ⟨0, 0⟩

/-- The least span that holds both. -/
def merge (a b : Span) : Span :=
  ⟨min a.start b.start, max a.stop b.stop⟩

end Span

end Shellwright

/-!
Spans: where in a filter text a part of a filter stands.
-/

namespace RowFilter

/-- A piece of a text: the byte offsets of its two ends, and the line and column of its first
character. -/
structure Span where
  start : Nat
  stop : Nat
  line : Nat
  column : Nat
deriving DecidableEq, Repr

namespace Span

/-- The span of a part that stands in no text. -/
def none : Span := ⟨0, 0, 0, 0⟩

/-- The smallest span that covers both. It begins where the one with the lower start begins, the
first one if both start alike. -/
def cover (a b : Span) : Span :=
  if b.start < a.start then { b with stop := max b.stop a.stop }
  else { a with stop := max a.stop b.stop }

end Span

end RowFilter

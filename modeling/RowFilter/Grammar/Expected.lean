/-!
What a text could have gone on with where reading it failed.

Reading collects the rules that failed at the farthest place. A rule that fails takes the place of
the failures inside it at the same place, because it says more than they do, unless it failed
through exactly one of them.
-/

namespace RowFilter.Grammar

/-- The rules that were expected at the farthest place where a rule failed. -/
structure Expected (R : Type) where
  offset : Nat
  rules : List R
deriving DecidableEq, Repr

namespace Expected

variable {R : Type}

def empty : Expected R := ⟨0, []⟩

/-- The number of rules expected at an offset. -/
def countAt (expected : Expected R) (offset : Nat) : Nat :=
  if offset = expected.offset then expected.rules.length else 0

/-- Notes that `rule` failed at `offset`, where `before` rules were expected when it was tried. -/
def note (expected : Expected R) (rule : R) (offset before : Nat) : Expected R :=
  if expected.countAt offset = before + 1 then expected
  else if offset < expected.offset then expected
  else if offset = expected.offset then ⟨offset, expected.rules.take before ++ [rule]⟩
  else ⟨offset, [rule]⟩

end Expected

end RowFilter.Grammar

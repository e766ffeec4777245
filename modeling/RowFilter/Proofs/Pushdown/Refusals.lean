import RowFilter.Proofs.Pushdown.Conversion

/-! What has no disjunctive normal form, and which part of a filter is blamed
for it. Collecting stops at the first failure, so the blame falls on the first
failing operand of the first failing disjunct. -/

namespace RowFilter

open Pushdown

namespace Filter

/-- The part of a disjunct that is blamed for a failing operand. -/
def blamed (disjunct operand : Filter) : Misfit → Filter
  | .disjunctionInConjunction => disjunct
  | .columnComparison => operand

section Chains

variable {filter operand : Filter} {connective : Connective}

end Chains

section Steps

variable {filter disjunct operand : Filter} {refusal : Refusal}

end Steps

section Acceptance

variable {filter : Filter}

end Acceptance

end Filter

end RowFilter

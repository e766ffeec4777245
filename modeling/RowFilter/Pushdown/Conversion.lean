import RowFilter.Filter.Search
import RowFilter.Polish
import RowFilter.Pushdown.Dnf

/-!
Filters as disjunctive normal forms.

Only filters that already are a disjunction of conjunctions of conditions have a form: nothing is
distributed or negated. Conditions that compare two columns have no triple.
-/

namespace RowFilter

namespace Pushdown

/-- Why the shape of a filter has no disjunctive normal form. -/
inductive Misfit where
  | disjunctionInConjunction
  | columnComparison
deriving DecidableEq, Repr

def Misfit.reason : Misfit → String
  | disjunctionInConjunction => "disjunction inside a conjunction"
  | columnComparison => "comparison between two columns"

/-- Why a filter has no disjunctive normal form, with the part of the filter that is to blame. -/
inductive Refusal where
  /-- The filter holds a negation. -/
  | negation (part : Filter)
  /-- A part of the filter has the wrong shape. -/
  | shape (misfit : Misfit) (part : Filter)
deriving DecidableEq, Repr

/-- The name of the form in messages. -/
def target : String := "DNF"

/-- The operator that has no disjunctive normal form. -/
def negationOperator : String := "NOT"

namespace Refusal

def message : Refusal → String
  | negation part =>
    "The `" ++ negationOperator ++ "` operator is not supported for " ++ target ++ " filters: " ++
      part.toPolish
  | shape misfit part =>
    "Unsupported filter structure for " ++ target ++ " filters: " ++ misfit.reason ++ ": " ++
      part.toPolish

end Refusal

/-- The triple of a condition, if there is one. -/
def Triple.ofCondition? : Condition → Option Triple
  | .comparison left operator (.literal value) =>
    some ⟨left.name, .compare operator, .literal value⟩
  | .comparison _ _ (.column _) => none
  | .nullCheck column negated =>
    some ⟨column.name, .compare (if negated then .notEqual else .equal), .null⟩
  | .membership column negated values =>
    some ⟨column.name, if negated then .notIn else .isIn, .set (.ofList values)⟩

/-- The triple of an operand of a conjunction. -/
def tripleOf (conjunction : Filter) : Filter → Except Refusal Triple
  | .condition c span =>
    match Triple.ofCondition? c with
    | some triple => .ok triple
    | none => .error (.shape .columnComparison (.condition c span))
  | _ => .error (.shape .disjunctionInConjunction conjunction)

/-- Applies a step to all items and collects the results, up to the first failure. The results so
far are in `done`, the last one first. -/
def collect {α β ε : Type} (step : α → Except ε β) (done : List β) : List α → Except ε (List β)
  | [] => .ok done.reverse
  | item :: items =>
    match step item with
    | .ok result => collect step (result :: done) items
    | .error e => .error e

/-- The triples of a conjunction. -/
def groupOf (conjunction : Filter) : Except Refusal (List Triple) :=
  collect (tripleOf conjunction) [] (conjunction.operands .and)

end Pushdown

open Pushdown

/-- The disjunctive normal form of a filter. A negation anywhere is refused before any part of the
wrong shape. -/
def Filter.toDnf (filter : Filter) : Except Refusal Dnf :=
  match filter.find? Filter.isNegation with
  | some part => .error (.negation part)
  | none => (collect groupOf [] (filter.operands .or)).map Dnf.mk

end RowFilter

import RowFilter.Filter.Search
import RowFilter.Proofs.Filter.Spans
import RowFilter.Proofs.Text.Bytes
import RowFilter.Proofs.Text.Lines

/-! What the spans of a filter say about its text. A faithful span cuts the
text between characters and around no gap, and its line and column count what
stands in front of it. The spans of a faithful filter also lie in each other
and behind each other as the nodes do. -/

namespace RowFilter

open Text

/-- A text that has characters, but no gap at its ends. -/
structure Text.IsTrimmed (text : List Char) : Prop where
  ne_nil : text ≠ []
  first_not_gap : ∀ c ∈ text.head?, isGap c = false
  last_not_gap : ∀ c ∈ text.getLast?, isGap c = false

/-- Of trimmed texts the first and the last one decide. -/
theorem Text.IsTrimmed.append {first second : List Char} (hFirst : IsTrimmed first)
    (middle : List Char) (hSecond : IsTrimmed second) :
    IsTrimmed (first ++ (middle ++ second)) where
  ne_nil h := hFirst.ne_nil (List.append_eq_nil_iff.1 h).1
  first_not_gap := by
    rw [List.head?_append_of_ne_nil _ hFirst.ne_nil]
    exact hFirst.first_not_gap
  last_not_gap := by
    have hBehind : middle ++ second ≠ [] := fun h => hSecond.ne_nil (List.append_eq_nil_iff.1 h).2
    rw [List.getLast?_append_of_ne_nil _ hBehind, List.getLast?_append_of_ne_nil _ hSecond.ne_nil]
    exact hSecond.last_not_gap

namespace Span

def before (span : Span) (text : List Char) : List Char :=
  (splitBytes span.start text).1

def slice (span : Span) (text : List Char) : List Char :=
  (splitBytes (span.stop - span.start) (splitBytes span.start text).2).1

def IsWithin (inner outer : Span) : Prop :=
  outer.start ≤ inner.start ∧ inner.stop ≤ outer.stop

/-- A span that maps to a trimmed piece of a text, with the line and the
column of its first character. -/
structure IsFaithful (text : List Char) (span : Span) : Prop where
  start_lt_stop : span.start < span.stop
  stop_le : span.stop ≤ byteLength text
  isBoundary_start : isBoundary span.start text = true
  isBoundary_stop : isBoundary span.stop text = true
  isTrimmed_slice : IsTrimmed (span.slice text)
  line_eq : span.line = (span.before text).count '\n' + 1
  column_eq : span.column = (lineStart (span.before text)).length + 1

/-- The span of a piece of a text, given the text in front of it. -/
def around (before piece : List Char) : Span :=
  ⟨byteLength before, byteLength before + byteLength piece, before.count '\n' + 1,
    (lineStart before).length + 1⟩

section Around

variable {text before piece behind : List Char}

theorem before_around (h : text = before ++ (piece ++ behind)) :
    (around before piece).before text = before := by
  rw [Span.before, around, h, splitBytes_append]

/-- The span of a piece maps to the piece. -/
theorem slice_around (h : text = before ++ (piece ++ behind)) :
    (around before piece).slice text = piece := by
  simp only [slice, around]
  rw [h, splitBytes_append, Nat.add_sub_cancel_left, splitBytes_append]

/-- The span of a trimmed piece is faithful. -/
theorem isFaithful_around (h : text = before ++ (piece ++ behind)) (hPiece : IsTrimmed piece) :
    (around before piece).IsFaithful text where
  start_lt_stop := Nat.lt_add_of_pos_right
    (Nat.pos_of_ne_zero fun hZero => hPiece.ne_nil (byteLength_eq_zero.1 hZero))
  stop_le := by
    rw [h, byteLength_append, byteLength_append, ← Nat.add_assoc]
    exact Nat.le_add_right ..
  isBoundary_start := by
    rw [h]
    exact isBoundary_byteLength before _
  isBoundary_stop := by
    have hBoundary := isBoundary_byteLength (before ++ piece) behind
    rwa [byteLength_append, List.append_assoc, ← h] at hBoundary
  isTrimmed_slice := by rwa [slice_around h]
  line_eq := by rw [before_around h, around]
  column_eq := by rw [before_around h, around]

/-- A text in front of a place is the beginning of a text in front of a later place. -/
theorem exists_append_of_byteLength_le {other rest : List Char} (h : before ++ behind = other ++ rest)
    (hLe : byteLength before ≤ byteLength other) : ∃ middle, other = before ++ middle := by
  rcases List.append_eq_append_iff.1 h with ⟨middle, hOther, -⟩ | ⟨middle, hBefore, -⟩
  · exact ⟨middle, hOther⟩
  · rw [hBefore, byteLength_append] at hLe
    have hMiddle : middle = [] := byteLength_eq_zero.1 (by omega)
    exact ⟨[], by rw [hBefore, hMiddle, List.append_nil, List.append_nil]⟩

end Around

/-- A span around some trimmed piece of a text. -/
def Surrounds (text : List Char) (span : Span) : Prop :=
  ∃ before piece behind, text = before ++ (piece ++ behind) ∧ span = around before piece ∧
    IsTrimmed piece

theorem Surrounds.isFaithful {text : List Char} {span : Span} (h : span.Surrounds text) :
    span.IsFaithful text := by
  obtain ⟨before, piece, behind, hText, rfl, hPiece⟩ := h
  exact isFaithful_around hText hPiece

/-- The span from the beginning of one piece to the end of a later one. -/
theorem Surrounds.cover {text : List Char} {first second : Span} (hFirst : first.Surrounds text)
    (hSecond : second.Surrounds text) (hOrder : first.stop < second.start) :
    (first.cover second).Surrounds text ∧
      first.cover second = ⟨first.start, second.stop, first.line, first.column⟩ := by
  have hFirstLt := hFirst.isFaithful.start_lt_stop
  have hSecondLt := hSecond.isFaithful.start_lt_stop
  have hCover : first.cover second = ⟨first.start, second.stop, first.line, first.column⟩ := by
    rw [Span.cover, if_neg (by omega), Nat.max_eq_right (by omega)]
  refine ⟨?_, hCover⟩
  obtain ⟨before, piece, behind, hText, rfl, hPiece⟩ := hFirst
  obtain ⟨other, last, rest, hOther, rfl, hLast⟩ := hSecond
  have hSame : (before ++ piece) ++ behind = other ++ (last ++ rest) := by
    rw [List.append_assoc, ← hText, ← hOther]
  have hLe : byteLength (before ++ piece) ≤ byteLength other := by
    rw [byteLength_append]
    exact Nat.le_of_lt hOrder
  obtain ⟨middle, rfl⟩ := exists_append_of_byteLength_le hSame hLe
  refine ⟨before, piece ++ (middle ++ last), rest, ?_, ?_, hPiece.append middle hLast⟩
  · rw [hOther]
    simp only [List.append_assoc]
  · rw [hCover]
    simp only [around, byteLength_append, mk.injEq, true_and, and_true]
    omega

end Span

@[simp] theorem Connective.span_join (connective : Connective) (left right : Filter) (span : Span) :
    (connective.join left right span).span = span := by
  cases connective <;> rfl

def Operand.columns : Operand → List Column
  | column c => [c]
  | literal _ => []

def Condition.columns : Condition → List Column
  | comparison left _ right => left :: right.columns
  | nullCheck column _ => [column]
  | membership column _ _ => [column]

/-- A column whose span maps to its name. -/
structure Column.IsFaithful (text : List Char) (column : Column) : Prop where
  isFaithful_span : column.span.IsFaithful text
  slice_eq : String.ofList (column.span.slice text) = column.name

namespace Filter

/-- A node whose span is faithful, and whose parts lie in it and behind each other. -/
def IsFaithful (text : List Char) : Filter → Prop
  | condition c span =>
    span.IsFaithful text ∧ ∀ column ∈ c.columns, column.IsFaithful text ∧ column.span.IsWithin span
  | not operand span => span.IsFaithful text ∧ operand.span.IsWithin span
  | and left right span | or left right span =>
    span.IsFaithful text ∧ left.span.stop < right.span.start ∧
      span = ⟨left.span.start, right.span.stop, left.span.line, left.span.column⟩

end Filter

section Moving

/-- A span that is moved by some bytes, without its line and its column. -/
def Span.movedBy (bytes : Nat) (span : Span) : Span :=
  ⟨span.start + bytes, span.stop + bytes, 0, 0⟩

def Column.mapSpan (f : Span → Span) (column : Column) : Column :=
  { column with span := f column.span }

def Operand.mapSpans (f : Span → Span) : Operand → Operand
  | column c => column (c.mapSpan f)
  | literal value => literal value

def Condition.mapSpans (f : Span → Span) : Condition → Condition
  | comparison left operator right => comparison (left.mapSpan f) operator (right.mapSpans f)
  | nullCheck column negated => nullCheck (column.mapSpan f) negated
  | membership column negated values => membership (column.mapSpan f) negated values

def Filter.mapSpans (f : Span → Span) : Filter → Filter
  | condition c span => condition (c.mapSpans f) (f span)
  | and left right span => and (left.mapSpans f) (right.mapSpans f) (f span)
  | or left right span => or (left.mapSpans f) (right.mapSpans f) (f span)
  | not operand span => not (operand.mapSpans f) (f span)

/-- Conditions that are the same up to spans are the same with the spans of their columns. -/
theorem Condition.mapSpans_eq {c other : Condition} {f g : Span → Span}
    (hErased : c.eraseSpans = other.eraseSpans)
    (hSpans : c.columns.map (f ·.span) = other.columns.map (g ·.span)) :
    c.mapSpans f = other.mapSpans g := by
  cases c with
  | comparison left operator right =>
    cases other with
    | comparison otherLeft otherOperator otherRight =>
      cases right <;> cases otherRight <;>
        simp_all [eraseSpans, Operand.eraseSpans, Column.eraseSpans, columns, Operand.columns,
          mapSpans, Operand.mapSpans, Column.mapSpan]
    | _ => cases hErased
  | nullCheck =>
    cases other with
    | nullCheck => simp_all [eraseSpans, Column.eraseSpans, columns, mapSpans, Column.mapSpan]
    | _ => cases hErased
  | membership =>
    cases other with
    | membership => simp_all [eraseSpans, Column.eraseSpans, columns, mapSpans, Column.mapSpan]
    | _ => cases hErased

end Moving

end RowFilter

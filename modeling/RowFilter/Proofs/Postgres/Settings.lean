import Mathlib.Data.List.Induction
import RowFilter.Postgres.Query
import RowFilter.Proofs.Syntax.Parse

/-! Settings of a query in sequence. A setting hides the earlier settings of
its kind and leaves the other kinds alone, so a query depends on the last
setting of each kind only, and on the order of these not at all. -/

namespace RowFilter.ReadQuery

inductive Setting where
  | columns (columns : List String)
  | filter (text : String)
  | distinct (distinct : Bool)
  | limit (limit : UInt64)
  | sample (sample : UInt64)
deriving DecidableEq, Repr

inductive Setting.Kind where
  | columns
  | filter
  | distinct
  | limit
  | sample
deriving DecidableEq, Repr

def Setting.kind : Setting → Kind
  | columns _ => .columns
  | filter _ => .filter
  | distinct _ => .distinct
  | limit _ => .limit
  | sample _ => .sample

def set (query : ReadQuery) : Setting → ReadQuery
  | .columns columns => query.withColumns columns
  | .filter text => query.withFilter text
  | .distinct distinct => query.withDistinct distinct
  | .limit limit => query.withLimit limit
  | .sample sample => query.withSample sample

/-- The query after some settings, one after the other. -/
def setAll (query : ReadQuery) (settings : List Setting) : ReadQuery :=
  settings.foldl set query

/-- A setting that stands among the settings, with no setting of its kind after it. -/
def IsLastOfKind (setting : Setting) (settings : List Setting) : Prop :=
  ∃ before after, settings = before ++ setting :: after ∧
    ∀ later ∈ after, later.kind ≠ setting.kind

/-- The settings without those that a later one of the same kind hides. -/
def lastings : List Setting → List Setting
  | [] => []
  | setting :: settings =>
    if ∃ later ∈ settings, later.kind = setting.kind then lastings settings
    else setting :: lastings settings

/-- Of two settings of a kind the later one counts. -/
theorem set_set_of_kind_eq (query : ReadQuery) {earlier later : Setting}
    (h : later.kind = earlier.kind) : (query.set earlier).set later = query.set later := by
  cases earlier <;> cases later <;> first | rfl | cases h

/-- Settings of different kinds do not touch each other. -/
theorem set_comm (query : ReadQuery) {one other : Setting} (h : one.kind ≠ other.kind) :
    (query.set one).set other = (query.set other).set one := by
  cases one <;> cases other <;> first | rfl | exact absurd rfl h

/-- A setting with a later one of its kind changes nothing. -/
theorem setAll_set_of_mem (query : ReadQuery) {setting later : Setting} {settings : List Setting}
    (hLater : later ∈ settings) (hKind : later.kind = setting.kind) :
    (query.set setting).setAll settings = query.setAll settings := by
  induction settings generalizing query with
  | nil => cases hLater
  | cons next settings ih =>
    change ((query.set setting).set next).setAll settings = (query.set next).setAll settings
    by_cases hNext : next.kind = setting.kind
    · rw [set_set_of_kind_eq query hNext]
    · have hMem : later ∈ settings :=
        (List.mem_cons.1 hLater).resolve_left fun hEq => hNext (hEq ▸ hKind)
      rw [set_comm query (Ne.symm hNext), ih (query.set next) hMem]

/-- Settings that a later one hides make no difference. -/
theorem setAll_lastings (query : ReadQuery) (settings : List Setting) :
    query.setAll (lastings settings) = query.setAll settings := by
  induction settings generalizing query with
  | nil => rfl
  | cons setting settings ih =>
    rw [lastings]
    split
    · next hHidden =>
      obtain ⟨later, hLater, hKind⟩ := hHidden
      rw [ih]
      exact (setAll_set_of_mem query hLater hKind).symm
    · exact ih (query.set setting)

theorem isLastOfKind_cons_iff {setting first : Setting} {settings : List Setting} :
    IsLastOfKind setting (first :: settings) ↔
      IsLastOfKind setting settings ∨
        setting = first ∧ ∀ later ∈ settings, later.kind ≠ first.kind := by
  constructor
  · rintro ⟨before, after, hSettings, hAfter⟩
    cases before with
    | nil =>
      obtain ⟨rfl, rfl⟩ := List.cons.inj hSettings
      exact .inr ⟨rfl, hAfter⟩
    | cons _ before => exact .inl ⟨before, after, (List.cons.inj hSettings).2, hAfter⟩
  · rintro (⟨before, after, rfl, hAfter⟩ | ⟨rfl, hAfter⟩)
    · exact ⟨first :: before, after, rfl, hAfter⟩
    · exact ⟨[], settings, rfl, hAfter⟩

theorem isLastOfKind_append_singleton_iff {setting final : Setting} {settings : List Setting} :
    IsLastOfKind setting (settings ++ [final]) ↔
      setting = final ∨ final.kind ≠ setting.kind ∧ IsLastOfKind setting settings := by
  constructor
  · rintro ⟨before, after, hSettings, hAfter⟩
    rcases List.eq_nil_or_concat after with rfl | ⟨after, last, rfl⟩
    · have hFinal := (List.append_inj' hSettings rfl).2
      exact .inl (List.cons.inj hFinal).1.symm
    · rw [List.concat_eq_append] at hSettings hAfter
      rw [← List.cons_append, ← List.append_assoc] at hSettings
      obtain ⟨rfl, hFinal⟩ := List.append_inj' hSettings rfl
      obtain rfl := (List.cons.inj hFinal).1
      exact .inr ⟨hAfter _ (by simp), before, after, rfl, fun later h => hAfter later (by simp [h])⟩
  · rintro (rfl | ⟨hKind, before, after, rfl, hAfter⟩)
    · exact ⟨settings, [], rfl, nofun⟩
    · refine ⟨before, after ++ [final], by simp, fun later hLater => ?_⟩
      rcases List.mem_append.1 hLater with hLater | hLater
      · exact hAfter later hLater
      · rwa [List.mem_singleton.1 hLater]

theorem IsLastOfKind.mem {setting : Setting} {settings : List Setting}
    (h : IsLastOfKind setting settings) : setting ∈ settings := by
  obtain ⟨before, after, rfl, -⟩ := h
  simp

/-- Only one setting of a kind is the last one. -/
theorem IsLastOfKind.unique {one other : Setting} {settings : List Setting}
    (hOne : IsLastOfKind one settings) (hOther : IsLastOfKind other settings)
    (hKind : one.kind = other.kind) : one = other := by
  induction settings with
  | nil => cases hOne.mem
  | cons first settings ih =>
    rcases isLastOfKind_cons_iff.1 hOne with hOneAfter | ⟨rfl, hNone⟩ <;>
      rcases isLastOfKind_cons_iff.1 hOther with hOtherAfter | ⟨rfl, hNone⟩
    · exact ih hOneAfter hOtherAfter
    · exact absurd hKind (hNone one hOneAfter.mem)
    · exact absurd hKind.symm (hNone other hOtherAfter.mem)
    · rfl

/-- The settings that are left are the last ones of their kinds. -/
theorem mem_lastings_iff {setting : Setting} {settings : List Setting} :
    setting ∈ lastings settings ↔ IsLastOfKind setting settings := by
  induction settings with
  | nil => exact ⟨nofun, fun h => nomatch h.mem⟩
  | cons first settings ih =>
    rw [isLastOfKind_cons_iff, lastings, ← ih]
    split
    · next hHidden =>
      obtain ⟨later, hLater, hKind⟩ := hHidden
      exact ⟨.inl, fun h => h.resolve_right fun hLast => hLast.2 later hLater hKind⟩
    · next hShown =>
      rw [List.mem_cons, or_comm]
      refine or_congr_right ⟨fun hFirst => ⟨hFirst, fun later hLater hKind => ?_⟩, And.left⟩
      exact hShown ⟨later, hLater, hKind⟩

/-- No setting is left twice. -/
theorem nodup_lastings (settings : List Setting) : (lastings settings).Nodup := by
  induction settings with
  | nil => exact List.nodup_nil
  | cons first settings ih =>
    rw [lastings]
    split
    · exact ih
    · next hShown =>
      refine List.nodup_cons.2 ⟨fun hMem => hShown ⟨first, ?_, rfl⟩, ih⟩
      exact (mem_lastings_iff.1 hMem).mem

/-- A query after some settings is the query after the last one of each kind, in any order. -/
theorem setAll_eq_of_isLastOfKind (query : ReadQuery) {settings kept : List Setting}
    (hNodup : kept.Nodup) (hKept : ∀ setting, setting ∈ kept ↔ IsLastOfKind setting settings) :
    query.setAll settings = query.setAll kept := by
  have hPerm : (lastings settings).Perm kept :=
    (List.perm_ext_iff_of_nodup (nodup_lastings settings) hNodup).2 fun setting => by
      rw [mem_lastings_iff, hKept]
  rw [← setAll_lastings]
  refine hPerm.foldl_eq' (fun one hOne other hOther between => ?_) query
  by_cases hEq : one = other
  · rw [hEq]
  · refine set_comm between fun hKind => hEq ?_
    exact (mem_lastings_iff.1 hOne).unique (mem_lastings_iff.1 hOther) hKind

theorem setAll_append_singleton (query : ReadQuery) (settings : List Setting) (final : Setting) :
    query.setAll (settings ++ [final]) = (query.setAll settings).set final := by
  simp only [setAll, List.foldl_append, List.foldl_cons, List.foldl_nil]

/-- The filter of a query is the last one that was set. -/
theorem filter_setAll_eq_some_iff (table : String) (settings : List Setting) (text : String) :
    ((ofTable table).setAll settings).filter = some text ↔
      IsLastOfKind (.filter text) settings := by
  induction settings using List.reverseRecOn with
  | nil => exact ⟨nofun, fun h => nomatch h.mem⟩
  | append_singleton settings final ih =>
    rw [isLastOfKind_append_singleton_iff, setAll_append_singleton, ← ih]
    cases final with
    | filter last => simp [set, withFilter, Setting.kind, eq_comm]
    | columns | distinct | limit | sample =>
      simp [set, withColumns, withDistinct, withLimit, withSample, Setting.kind]

/-- A query fails exactly if its filter has an error. -/
theorem toSql_eq_error_iff (query : ReadQuery) (error : SyntaxError) :
    query.toSql = .error error ↔
      ∃ text, query.filter = some text ∧ Filter.parse text = .error error := by
  rw [toSql]
  cases query.filter with
  | none => simp [whereClause, Except.map]
  | some text => cases hParse : Filter.parse text <;> simp [whereClause, Except.map, hParse]

/-- Whatever was set in whatever sequence, a query has the statement of a fresh
query with the last setting of each kind, in any order. It fails exactly if the
filter set last has an error, and with this error, so that setting a filter
without an error puts things right. -/
theorem toSql_setAll (table : String) (settings : List Setting) :
    (∀ kept : List Setting, kept.Nodup →
      (∀ setting, setting ∈ kept ↔ IsLastOfKind setting settings) →
      ((ofTable table).setAll settings).toSql = ((ofTable table).setAll kept).toSql) ∧
    (∀ error, ((ofTable table).setAll settings).toSql = .error error ↔
      ∃ text, IsLastOfKind (.filter text) settings ∧ Filter.parse text = .error error) ∧
    ∀ text f more, Filter.parse text = .ok f →
      (∀ setting ∈ more, setting.kind ≠ Setting.Kind.filter) →
      ∃ sql, ((ofTable table).setAll (settings ++ .filter text :: more)).toSql = .ok sql := by
  refine ⟨fun kept hNodup hKept => ?_, fun error => ?_, fun text f more hParse hMore => ?_⟩
  · rw [setAll_eq_of_isLastOfKind _ hNodup hKept]
  · simp only [toSql_eq_error_iff, filter_setAll_eq_some_iff]
  · cases hSql : ((ofTable table).setAll (settings ++ .filter text :: more)).toSql with
    | ok sql => exact ⟨sql, rfl⟩
    | error error =>
      obtain ⟨last, hLast, hError⟩ := (toSql_eq_error_iff _ error).1 hSql
      have hText : IsLastOfKind (.filter text) (settings ++ .filter text :: more) :=
        ⟨settings, more, rfl, hMore⟩
      have hSame := ((filter_setAll_eq_some_iff ..).1 hLast).unique hText rfl
      obtain rfl := Setting.filter.inj hSame
      rw [hParse] at hError
      cases hError

/-- The first limit, the columns and a filter that cannot be read are set again. -/
theorem toSql_setAll_again :
    let settings : List Setting :=
      [.limit 50, .filter "a >", .columns ["x"], .sample 20, .limit 5, .columns []]
    ((ofTable "t").setAll settings).toSql =
        ((ofTable "t").setAll [.columns [], .limit 5, .sample 20, .filter "a >"]).toSql ∧
      ∃ sql, ((ofTable "t").setAll (settings ++ [.filter "a = 1", .limit 9])).toSql = .ok sql := by
  intro settings
  obtain ⟨hKept, -, hLater⟩ := toSql_setAll "t" settings
  have hPerm : (lastings settings).Perm [.columns [], .limit 5, .sample 20, .filter "a >"] := by
    decide
  refine ⟨hKept _ (by decide) fun setting => ?_, ?_⟩
  · rw [← mem_lastings_iff, hPerm.mem_iff]
  · obtain ⟨f, hParse, -⟩ : ∃ read, Filter.parse "a = 1" = .ok read ∧ read.eraseSpans =
        .condition (.comparison ⟨"a", .none⟩ .equal (.literal (.integer 1))) .none :=
      Filter.exists_parse_of_eraseSpans (by decide +kernel)
    exact hLater _ f [.limit 9] hParse (by decide)

end RowFilter.ReadQuery

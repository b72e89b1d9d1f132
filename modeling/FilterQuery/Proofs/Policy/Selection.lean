import FilterQuery.Proofs.Document.Columns
import FilterQuery.Proofs.Policy.Resolve
import FilterQuery.Proofs.Sql.Columns
import FilterQuery.Proofs.Sql.Placeholders
set_option autoImplicit false

/-!
The columns of rendered plans. A policy leaves the names that it resolves from a list of selected
ones; a plan that is left without any selects every column.
-/

namespace FilterQuery.Policy

variable {p : Policy}

/-- What a policy lets a list of selected names select: every column if it drops all of them, else
the names that they resolve to. -/
def Selects (p : Policy) (selected : List Text) : Option (List Text) → Prop
  | none => ∀ n ∈ selected, p.resolve n = none
  | some columns => columns ≠ [] ∧ ∀ c, c ∈ columns ↔ ∃ n ∈ selected, p.resolve n = some c

theorem names_eq_nil {ns : List Text} : p.names ns = [] ↔ ∀ n ∈ ns, p.resolve n = none := by
  simp only [List.eq_nil_iff_forall_not_mem, mem_names, not_exists, not_and,
    Option.eq_none_iff_forall_ne_some]
  exact ⟨fun h n hn c => h c n hn, fun h c n hn => h n hn c⟩

theorem selects_of_names {selected columns : List Text}
    (h : ∀ c, c ∈ columns ↔ c ∈ p.names selected) :
    p.Selects selected (if p.names selected = [] then none else some columns) := by
  by_cases hnone : p.names selected = []
  · rw [if_pos hnone]
    exact names_eq_nil.1 hnone
  · rw [if_neg hnone]
    obtain ⟨c, hc⟩ := List.exists_mem_of_ne_nil _ hnone
    exact ⟨List.ne_nil_of_mem ((h c).2 hc), fun c => (h c).trans mem_names⟩

theorem selects_statement (p : Policy) (r : Request) (selected groupBy : List Text)
    (s : Sql.Style) (table : Text) (before after : List Part) :
    ∃ rest columns, (s.statement table (p.apply r selected groupBy)
          (before ++ .columns :: after)).content =
        Sql.Fragment.spacedBehind (before.map (s.part table (p.apply r selected groupBy))) ++ rest ∧
      s.dialect.selection? rest = some columns ∧ p.Selects selected columns := by
  obtain ⟨rest, hcontent, hcolumns⟩ := s.selection?_statement table
    (p.apply r selected groupBy) before after
  exact ⟨rest, _, hcontent, hcolumns, selects_of_names fun _ => Iff.rfl⟩

theorem selects_find (p : Policy) (r : Request) (selected groupBy : List Text) :
    p.Selects selected (Document.findColumns (Document.find (p.apply r selected groupBy))) := by
  rw [Document.findColumns_find]
  exact selects_of_names fun _ => Document.mem_keys_projection

theorem selects_aggregate (p : Policy) (r : Request) (selected groupBy : List Text)
    (collection : Text → Text) :
    p.Selects selected
      (Document.pipelineColumns (Document.aggregate collection (p.apply r selected groupBy))) := by
  rw [Document.pipelineColumns_aggregate]
  exact selects_of_names fun _ => Document.mem_keys_projection

/-- The columns of a rendered query are read from where they stand in a statement, and from the
documents of a document query. They are the names that the selected ones resolve to, but every
column if the policy drops all of these. -/
theorem selects_query (p : Policy) (r : Request) (selected groupBy : List Text) (name shared : Text)
    (target : Target) {table : Text} (htable : Adapter.table? target = some table)
    (parts : Option (List Part)) :
    (∀ d own before after, parts.getD Part.statement = before ++ .columns :: after →
      ∃ text args columns,
        (Adapter.sql name d own).query shared (p.apply r selected groupBy) target parts =
          .ok (.sql (Sql.Fragment.spacedBehind (before.map
            ((Adapter.style d own shared).part table (p.apply r selected groupBy))) ++ text) args) ∧
        d.selection? text = some columns ∧ p.Selects selected columns) ∧
    ∃ documents,
      Adapter.document.query shared (p.apply r selected groupBy) target parts =
        .ok (.document table documents) ∧
      (.find ∈ parts.getD [.find] → ∃ q, documents.get? Part.find.tag = some q ∧
        p.Selects selected (Document.findColumns q)) ∧
      (.aggregate ∈ parts.getD [.find] → ∃ q, documents.get? Part.aggregate.tag = some q ∧
        p.Selects selected (Document.pipelineColumns q)) := by
  constructor
  · intro d own before after hparts
    obtain ⟨text, columns, hcontent, hread, hselects⟩ :=
      p.selects_statement r selected groupBy (Adapter.style d own shared) table before after
    rw [Adapter.sql_query_of_table htable, hparts, hcontent]
    exact ⟨text, _, columns, rfl, hread, hselects⟩
  · refine ⟨_, Adapter.document_query_of_table htable shared _ parts, fun hfind => ?_,
      fun haggregate => ?_⟩
    · exact ⟨_, Document.get?_parts rfl hfind, p.selects_find r selected groupBy⟩
    · exact ⟨_, Document.get?_parts rfl haggregate, p.selects_aggregate r selected groupBy _⟩

theorem selects_query_secret :
    let p := (empty .snakeCase .flexible).ignore ["secret".toList]
    let plan := p.apply ⟨none, [], .none, []⟩ ["Secret".toList] []
    (∃ text args, (Adapter.sql "pg".toList .postgres none).query Sql.defaultRegexOperator plan
        ⟨some "users".toList, []⟩ none = .ok (.sql text args) ∧
      Sql.Dialect.postgres.selection? text = some none) ∧
    ∀ n ∈ ["Secret".toList], p.resolve n = none := by
  intro p plan
  have hnone : ∀ n ∈ ["Secret".toList], p.resolve n = none := by decide
  obtain ⟨text, args, columns, hquery, hread, hselects⟩ :=
    (p.selects_query ⟨none, [], .none, []⟩ ["Secret".toList] [] "pg".toList
      Sql.defaultRegexOperator ⟨some "users".toList, []⟩ rfl none).1 .postgres none []
      Part.statement.tail rfl
  refine ⟨⟨text, args, hquery, ?_⟩, hnone⟩
  cases columns with
  | none => exact hread
  | some columns =>
    obtain ⟨c, hc⟩ := List.exists_mem_of_ne_nil _ hselects.1
    obtain ⟨n, hn, hres⟩ := (hselects.2 c).1 hc
    cases (hnone n hn).symm.trans hres

end FilterQuery.Policy

import FilterQuery.Proofs.Document.Order
import FilterQuery.Proofs.Sql.Placeholders
set_option autoImplicit false

/-!
Rendered plans and the order of records. A statement always orders records by the sort keys of its
plan; a document query does exactly if no field comes back in the other direction.
-/

namespace FilterQuery.Plan

open SortKey in
/-- The sort keys are read back from where they stand in a statement, and from the documents of a
document query. The statement has those of the plan. The documents order records by the fields in
the order of the sort keys, each in its last direction, and so as the statement does for all records
exactly if that is its first direction too. -/
theorem queries_order_alike_iff {α : Type} {order : α → α → Ordering} [Std.ReflCmp order] {x y : α}
    (hdiff : order x y ≠ .eq) (p : Plan) (name shared : Text) (target : Target) {table : Text}
    (htable : Adapter.table? target = some table) (parts : Option (List Part)) :
    (∀ d own before after, p.request.sort ≠ [] →
      parts.getD Part.statement = before ++ .order :: after →
      ∃ text args, (Adapter.sql name d own).query shared p target parts =
          .ok (.sql (Sql.Fragment.spacedBehind (before.map
            ((Adapter.style d own shared).part table p)) ++ text) args) ∧
        d.order? text = some p.request.sort) ∧
    ∃ documents keys,
      Adapter.document.query shared p target parts = .ok (.document table documents) ∧
      (.find ∈ parts.getD [.find] → ∃ q, documents.get? Part.find.tag = some q ∧
        Document.findOrder q = some keys) ∧
      (.aggregate ∈ parts.getD [.find] → ∃ q, documents.get? Part.aggregate.tag = some q ∧
        Document.pipelineOrder q = some keys) ∧
      (∀ a b : Text → α, compareBy order keys a b =
        compareBy order (lastDirections p.request.sort) a b) ∧
      ((∀ a b : Text → α, compareBy order keys a b = compareBy order p.request.sort a b) ↔
        Steady p.request.sort) := by
  constructor
  · intro d own before after hne hparts
    obtain ⟨text, hcontent, hread⟩ :=
      (Adapter.style d own shared).order?_statement hne table before after
    rw [Adapter.sql_query_of_table htable, hparts, hcontent]
    exact ⟨text, _, rfl, hread⟩
  · have hquery := Adapter.document_query_of_table htable shared p parts
    have hkeys := Document.sortKeys?_sort p.request.sort
    have hlast (a b : Text → α) : compareBy order _ a b = _ :=
      Document.compareBy_sortKeys hkeys a b
    refine ⟨_, _, hquery, fun hfind => ?_, fun haggregate => ?_, hlast, ?_⟩
    · exact ⟨_, Document.get?_parts rfl hfind, (Document.findOrder_find p).trans hkeys⟩
    · exact ⟨_, Document.get?_parts rfl haggregate,
        (Document.pipelineOrder_aggregate target.collectionOf p).trans hkeys⟩
    · simp only [hlast]
      exact compareBy_lastDirections_iff hdiff p.request.sort

/-- Two spellings of one field in the two directions: what the document asks for is not the order
of the keys. -/
theorem queries_order_alike_iff_vendor :
    let p := (Policy.empty .snakeCase .flexible).apply
      ⟨none, [⟨"vendorId".toList, .asc⟩, ⟨"vendor_id".toList, .desc⟩], .none, []⟩ [] []
    compare (0 : Int) 1 ≠ .eq ∧ ∃ documents q keys,
      Adapter.document.query Sql.defaultRegexOperator p ⟨some "t".toList, []⟩ none =
        .ok (.document "t".toList documents) ∧
      documents.get? Part.find.tag = some q ∧ Document.findOrder q = some keys ∧
      ¬∀ a b : Text → Int,
        SortKey.compareBy compare keys a b = SortKey.compareBy compare p.request.sort a b := by
  intro p
  have hdiff : compare (0 : Int) 1 ≠ .eq := by decide
  obtain ⟨-, documents, keys, hquery, hfind, -, -, halike⟩ :=
    queries_order_alike_iff hdiff p "document".toList Sql.defaultRegexOperator
      ⟨some "t".toList, []⟩ rfl none
  obtain ⟨q, hq, hkeys⟩ := hfind (List.mem_singleton_self _)
  refine ⟨hdiff, documents, q, keys, hquery, hq, hkeys, ?_⟩
  rw [halike]
  decide

end FilterQuery.Plan

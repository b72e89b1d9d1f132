import FilterQuery.Proofs.Document.Columns
import FilterQuery.Proofs.Document.Meaning
import FilterQuery.Proofs.Sql.Joins
import FilterQuery.Proofs.Sql.Placeholders
set_option autoImplicit false

/-!
How the relations of a plan are loaded. A statement joins each of them on the condition of its
filters, and a pipeline starts with a stage that looks each of them up, in the order of the plan.
-/

namespace FilterQuery

namespace Document

theorem conjunction?_eq_none_iff {es : List Expr} : conjunction? es = none ↔ es = [] := by
  obtain _ | ⟨e, _ | ⟨f, es⟩⟩ := es <;> simp [conjunction?]

theorem holds_conjunction? (s : Record Json) {es : List Expr} {m : Json}
    (h : conjunction? es = some m) (hfields : ∀ e ∈ es, ∀ f ∈ e.fields, f.head? ≠ some '$') :
    holds s m = some (es.all fun e => e.holds (valued s)) := by
  have hleaves : ∀ l ∈ Expr.leavesEach es, l.1.head? ≠ some '$' := by
    intro l hl
    rw [Expr.leavesEach_eq_flatMap] at hl
    obtain ⟨e, he, hl⟩ := List.mem_flatMap.1 hl
    exact hfields e he l.1 (List.mem_map_of_mem hl)
  match es, h with
  | [e], rfl =>
    rw [holds_ofExpr s e fun l hl => hleaves l (List.mem_append_left _ hl), List.all_cons,
      List.all_nil, Bool.and_true]
  | e :: f :: es, rfl =>
    have hand := holds_ofExpr s (.junction .and (e :: f :: es)) hleaves
    rw [ofExpr, ofExprEach_eq_map, Expr.holds, Expr.holdsEach_eq_map, Junction.holds,
      List.all_map] at hand
    exact hand

/-- A filter holds all of some filters: it is the only one, or has them under one operator, and it
is true exactly if they all are. -/
structure HoldsAll (es : List Expr) (m : Json) : Prop where
  one (e : Expr) : es = [e] → m = ofExpr e
  several : 2 ≤ es.length → m = .single "$and".toList (.array (es.map ofExpr))
  means (s : Record Json) : (∀ e ∈ es, ∀ f ∈ e.fields, f.head? ≠ some '$') →
    holds s m = some (es.all fun e => e.holds (valued s))

theorem holdsAll_conjunction? {es : List Expr} {m : Json} (h : conjunction? es = some m) :
    HoldsAll es m where
  one e he := by
    subst he
    exact (Option.some.inj h).symm
  several hlength := by
    match es, hlength with
    | e :: f :: es, _ => exact (Option.some.inj h).symm
  means s := holds_conjunction? s h

structure LooksUp (collection relation : Text) (es : List Expr) (stage : Json) : Prop where
  keys : stage.keys = ["$lookup".toList]
  source : (stage.get? "$lookup".toList).bind (Json.get? "from".toList) = some (.text collection)
  name : (stage.get? "$lookup".toList).bind (Json.get? "as".toList) = some (.text relation)
  pipeline : ∃ stages : List Json,
    (stage.get? "$lookup".toList).bind (Json.get? "pipeline".toList) = some (.array stages) ∧
      (stages = [] ↔ es = []) ∧
      (es ≠ [] → ∃ m, stages = [.single "$match".toList m] ∧ HoldsAll es m)

theorem looksUp_lookup (collection relation : Text) (es : List Expr) :
    LooksUp collection relation es (lookup collection relation es) where
  keys := rfl
  source := rfl
  name := rfl
  pipeline := by
    refine ⟨_, rfl, ?_⟩
    cases h : conjunction? es with
    | none =>
      have hes := conjunction?_eq_none_iff.1 h
      exact ⟨⟨fun _ => hes, fun _ => rfl⟩, fun hne => absurd hes hne⟩
    | some m =>
      have hes : es ≠ [] := fun hes => by rw [conjunction?_eq_none_iff.2 hes] at h; cases h
      exact ⟨⟨fun hnil => (nomatch hnil), fun hnil => absurd hnil hes⟩,
        fun _ => ⟨m, rfl, holdsAll_conjunction? h⟩⟩

theorem exists_aggregate (collection : Text → Text) (p : Plan) :
    ∃ stages rest : List Json, aggregate collection p = .array (stages ++ rest) ∧
      List.Forall₂ (fun q => LooksUp (collection q.1) q.1 q.2) p.request.preloads stages ∧
      ∀ stage ∈ rest, stage.get? "$lookup".toList = none := by
  refine ⟨_, _, rfl, ?_, ?_⟩
  · rw [List.forall₂_map_right_iff, List.forall₂_same]
    exact fun q _ => looksUp_lookup _ _ _
  · have hmatch (f : Option Expr) :
        (f.map fun e => ("$match".toList, ofExpr e)).toList.lookup "$lookup".toList = none := by
      cases f <;> rfl
    -- none of the other stages has the key of a lookup
    have absent (key : String) := lookup_entryIf_of_ne key (k := "$lookup".toList)
    rw [← List.findSome?_eq_none_iff, findSome?_single]
    simp only [List.lookup_append, hmatch, absent "$group" (by decide), absent "$sort" (by decide),
      absent "$skip" (by decide), absent "$limit" (by decide), absent "$project" (by decide),
      Option.none_or]

end Document

namespace Adapter

/-- With a table both kinds of adapters render all relations of a plan in its order. The joins of a
statement are one for each of them, and a pipeline starts with one stage for each of them and looks
up nothing else. -/
theorem query_preloads (d : Sql.Dialect) (own : Option Text) (shared : Text) (p : Plan)
    (target : Target) {table : Text} (htable : table? target = some table) :
    (∃ on : Text → List Expr → Text,
      (∀ name, (sql name d own).query shared p target (some [.joins]) =
        .ok (.sql (Text.join [' '] (p.request.preloads.map fun q =>
          "JOIN ".toList ++ d.identifier q.1 ++ " ON ".toList ++ on q.1 q.2)) (p.arguments .joins))) ∧
      ∀ r es, (style d own shared).JoinsOn r es (on r es)) ∧
    ∃ stages rest : List Json,
      (∀ parts, Part.aggregate ∈ parts → ∃ x,
        document.query shared p target (some parts) = .ok (.document table x) ∧
          x.get? "AGGREGATE".toList = some (.array (stages ++ rest))) ∧
      List.Forall₂
        (fun q => Document.LooksUp ((target.collections.lookup q.1).getD q.1) q.1 q.2)
        p.request.preloads stages ∧
      ∀ stage ∈ rest, stage.get? "$lookup".toList = none := by
  refine ⟨⟨fun r es => ((style d own shared).on r es).content, fun name => ?_, fun r es =>
    Sql.Style.joinsOn_on rfl r es⟩, ?_⟩
  · have hargs := (style d own shared).args_statement table p [.joins]
    rw [sql_query_of_table htable, Option.getD_some, Sql.Style.content_joins, hargs,
      List.flatMap_singleton]
    rfl
  · obtain ⟨stages, rest, haggregate, hstages, hrest⟩ :=
      Document.exists_aggregate target.collectionOf p
    refine ⟨stages, rest, fun parts hmem => ?_, hstages, hrest⟩
    have hpart : Document.part? target.collectionOf p .aggregate = some (.array (stages ++ rest)) :=
      congrArg some haggregate
    refine ⟨Document.parts target.collectionOf p parts, ?_, Document.get?_parts hpart hmem⟩
    rw [document_query_of_table htable, Option.getD_some]

/-- One relation without a filter, and one with two, whose collection has another name. -/
theorem query_preloads_articles :
    let es : List Expr := [.leaf "views".toList (.compare .gt (.int 5)),
      .not (.leaf "title".toList (.null false))]
    let p : Plan := ⟨⟨none, [], ⟨0, 0⟩, [("tags".toList, []), ("posts".toList, es)]⟩, [], []⟩
    let target : Target := ⟨some "users".toList, [("posts".toList, "articles".toList)]⟩
    let on := "(\"posts\".\"views\" > ? AND NOT (\"posts\".\"title\" IS NULL))".toList
    table? target = some "users".toList ∧
      ((sql "pg".toList .postgres none).query Sql.defaultRegexOperator p target (some [.joins]) =
        .ok (.sql ("JOIN \"tags\" ON 1=1 JOIN \"posts\" ON ".toList ++ on) [.int 5]) ∧
        (style .postgres none Sql.defaultRegexOperator).JoinsOn "posts".toList es on) ∧
      ∃ (x tags posts : Json) (rest : List Json),
        document.query Sql.defaultRegexOperator p target (some [.aggregate]) =
          .ok (.document "users".toList x) ∧
        x.get? "AGGREGATE".toList = some (.array (tags :: posts :: rest)) ∧
        Document.LooksUp "tags".toList "tags".toList [] tags ∧
        Document.LooksUp "articles".toList "posts".toList es posts ∧
        ∀ stage ∈ rest, stage.get? "$lookup".toList = none := by
  intro es p target on
  obtain ⟨⟨conditions, hquery, hon⟩, stages, rest, hdocument, hstages, hrest⟩ :=
    query_preloads .postgres none Sql.defaultRegexOperator p target rfl
  have hsql : (sql "pg".toList .postgres none).query Sql.defaultRegexOperator p target
      (some [.joins]) =
        .ok (.sql ("JOIN \"tags\" ON 1=1 JOIN \"posts\" ON ".toList ++ on) [.int 5]) := rfl
  have htags : conditions "tags".toList [] = "1=1".toList := (hon _ _).always_iff.2 rfl
  have hposts : conditions "posts".toList es = on := by
    obtain ⟨htext, -⟩ := Query.sql.inj (Except.ok.inj ((hquery "pg".toList).symm.trans hsql))
    simp only [p, List.map_cons, List.map_nil, htags, Text.join_cons_cons, Text.join_singleton,
      ← List.append_assoc] at htext
    exact List.append_inj_right htext rfl
  obtain ⟨x, hx, hstagesx⟩ := hdocument [.aggregate] (List.mem_singleton_self _)
  obtain _ | ⟨htagsup, _ | ⟨hpostsup, hnone⟩⟩ := hstages
  cases hnone
  exact ⟨rfl, ⟨hsql, hposts ▸ hon _ _⟩, x, _, _, rest, hx, hstagesx, htagsup, hpostsup, hrest⟩

end Adapter

end FilterQuery

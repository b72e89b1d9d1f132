import FilterQuery.Document.Query
set_option autoImplicit false

/-!
The columns that queries of a document store project on, read back from their documents: those that
the plan names, or all if it names none.
-/

namespace FilterQuery

namespace Json

def keys : Json → List Text
  | object fields => fields.map Prod.fst
  | _ => []

theorem lookup_insert (key k : Text) (x : Json) (fields : List (Text × Json)) :
    (insert key x fields).lookup k = if k = key then some x else fields.lookup k := by
  induction fields with
  | nil =>
    by_cases hk : k = key
    · simp [insert, hk]
    · simp [insert, List.lookup_cons, beq_eq_false_iff_ne.2 hk, hk]
  | cons f fields ih =>
    obtain ⟨l, y⟩ := f
    by_cases hl : l = key
    · subst hl
      by_cases hk : k = l
      · simp [insert, hk]
      · simp [insert, List.lookup_cons, beq_eq_false_iff_ne.2 hk, hk]
    · by_cases hk : k = l
      · subst hk
        simp [insert, hl]
      · simp [insert, hl, List.lookup_cons, beq_eq_false_iff_ne.2 hk, ih]

theorem mem_keys_insert (key k : Text) (x : Json) (fields : List (Text × Json)) :
    k ∈ (insert key x fields).map Prod.fst ↔ k = key ∨ k ∈ fields.map Prod.fst := by
  induction fields with
  | nil => simp [insert]
  | cons f fields ih =>
    obtain ⟨l, y⟩ := f
    by_cases hl : l = key
    · simp [insert, hl]
    · simp only [insert, hl, if_false, List.map_cons, List.mem_cons, ih]
      exact or_left_comm

theorem get?_ofEntries {es : List (Text × Json)} {k : Text} {x : Json}
    (h : ∀ e ∈ es, e.1 = k → e.2 = x) :
    (ofEntries es).get? k = if k ∈ es.map Prod.fst then some x else none := by
  have hfold (fields : List (Text × Json)) :
      (es.foldl (fun fields e => insert e.1 e.2 fields) fields).lookup k =
        if k ∈ es.map Prod.fst then some x else fields.lookup k := by
    induction es generalizing fields with
    | nil => simp
    | cons e es ih =>
      rw [List.foldl_cons, ih fun e' he' => h e' (List.mem_cons_of_mem _ he'), lookup_insert]
      by_cases hk : k = e.1
      · simp [hk, h e List.mem_cons_self hk.symm]
      · simp only [hk, if_false, List.map_cons, List.mem_cons, false_or]
  exact hfold []

theorem mem_keys_ofEntries {es : List (Text × Json)} {k : Text} :
    k ∈ (ofEntries es).keys ↔ k ∈ es.map Prod.fst := by
  have hfold (fields : List (Text × Json)) :
      k ∈ (es.foldl (fun fields e => insert e.1 e.2 fields) fields).map Prod.fst ↔
        k ∈ es.map Prod.fst ∨ k ∈ fields.map Prod.fst := by
    induction es generalizing fields with
    | nil => simp
    | cons e es ih =>
      rw [List.foldl_cons, ih, mem_keys_insert, List.map_cons, List.mem_cons]
      exact or_left_comm.trans (or_assoc).symm
  simpa [ofEntries, keys] using hfold []

end Json

namespace Document

/-- The columns of a query of the store; none stands for all of them. -/
def findColumns (query : Json) : Option (List Text) :=
  (query.get? "projection".toList).map Json.keys

def pipelineColumns (pipeline : Json) : Option (List Text) :=
  ((pipeline.array?.getD []).findSome? (Json.get? "$project".toList)).map Json.keys

theorem mem_keys_projection {names : List Text} {c : Text} :
    c ∈ (projection names).keys ↔ c ∈ names := by
  simp [projection, Json.mem_keys_ofEntries]

theorem lookup_entryIf (present : Bool) (key : String) (x : Json) :
    (entryIf present key x).lookup key.toList = if present then some x else none := by
  cases present <;> simp [entryIf]

theorem lookup_entryIf_of_ne (key : String) {k : Text} (hk : k ≠ key.toList) (present : Bool)
    (x : Json) : (entryIf present key x).lookup k = none := by
  cases present <;> simp [entryIf, List.lookup_cons, beq_eq_false_iff_ne.2 hk]

theorem findColumns_find (p : Plan) :
    findColumns (find p) = if p.selected = [] then none else some (projection p.selected).keys := by
  have hfront (x y : Json) :
      [("filter".toList, x), ("sort".toList, y)].lookup "projection".toList = none := rfl
  have absent (key : String) := lookup_entryIf_of_ne key (k := "projection".toList)
  have hskip := absent "skip" (by decide)
  have hlimit := absent "limit" (by decide)
  simp only [findColumns, find, Json.get?, List.lookup_append, hfront, hskip, hlimit,
    lookup_entryIf, Option.none_or]
  by_cases hnone : p.selected = [] <;> simp [hnone]

theorem findSome?_single (key : Text) (es : List (Text × Json)) :
    (es.map fun e => Json.single e.1 e.2).findSome? (Json.get? key) = es.lookup key := by
  induction es with
  | nil => rfl
  | cons e es ih =>
    obtain ⟨k, x⟩ := e
    by_cases hk : key = k
    · simp [Json.single, Json.get?, hk]
    · have hbeq := beq_eq_false_iff_ne.2 hk
      simp only [List.map_cons, List.findSome?_cons, Json.single, Json.get?, List.lookup_cons,
        List.lookup_nil, hbeq, ← ih]

theorem findSome?_lookup {key : Text} (hkey : key ≠ "$lookup".toList) (collection : Text → Text)
    (ps : Preloads) :
    (ps.map fun q => lookup (collection q.1) q.1 q.2).findSome? (Json.get? key) = none := by
  rw [List.findSome?_eq_none_iff]
  intro stage hstage
  obtain ⟨q, -, rfl⟩ := List.mem_map.1 hstage
  simp only [lookup, Json.single, Json.get?, List.lookup_cons, List.lookup_nil,
    beq_eq_false_iff_ne.2 hkey]

def stages (p : Plan) : List (Text × Json) :=
  let page := p.request.page
  (p.request.filter.map fun e => ("$match".toList, ofExpr e)).toList ++
    entryIf (!p.groupBy.isEmpty) "$group" (group p.groupBy) ++
    entryIf (!p.request.sort.isEmpty) "$sort" (sort p.request.sort) ++
    entryIf (0 < page.skip) "$skip" (.int page.skip) ++
    entryIf (0 < page.take) "$limit" (.int page.take) ++
    entryIf (!p.selected.isEmpty) "$project" (projection p.selected)

theorem findSome?_aggregate {key : Text} (hkey : key ≠ "$lookup".toList)
    (collection : Text → Text) (p : Plan) :
    ((aggregate collection p).array?.getD []).findSome? (Json.get? key) =
      (stages p).lookup key := by
  simp only [aggregate, Json.array?, Option.getD_some, List.findSome?_append]
  rw [findSome?_lookup hkey, findSome?_single, Option.none_or]
  rfl

theorem lookup_match_of_ne {key : Text} (hkey : key ≠ "$match".toList) (f : Option Expr) :
    (f.map fun e => ("$match".toList, ofExpr e)).toList.lookup key = none := by
  cases f with
  | none => rfl
  | some e =>
    simp only [Option.map_some, Option.toList_some, List.lookup_cons, List.lookup_nil,
      beq_eq_false_iff_ne.2 hkey]

theorem pipelineColumns_aggregate (collection : Text → Text) (p : Plan) :
    pipelineColumns (aggregate collection p) =
      if p.selected = [] then none else some (projection p.selected).keys := by
  have absent (key : String) := lookup_entryIf_of_ne key (k := "$project".toList)
  have hmatch := lookup_match_of_ne (show "$project".toList ≠ _ by decide)
  have hgroup := absent "$group" (by decide)
  have hsort := absent "$sort" (by decide)
  have hskip := absent "$skip" (by decide)
  have hlimit := absent "$limit" (by decide)
  rw [pipelineColumns, findSome?_aggregate (by decide)]
  simp only [stages, List.lookup_append, hmatch, hgroup, hsort, hskip, hlimit, lookup_entryIf,
    Option.none_or]
  by_cases hnone : p.selected = [] <;> simp [hnone]

theorem part?_eq_some {collection : Text → Text} {p : Plan} {part : Part} {q : Json}
    (h : part? collection p part = some q) :
    (part = .find ∧ q = find p) ∨ (part = .aggregate ∧ q = aggregate collection p) := by
  cases part <;> cases h
  · exact .inl ⟨rfl, rfl⟩
  · exact .inr ⟨rfl, rfl⟩

theorem eq_of_tag_eq {collection : Text → Text} {p : Plan} {a b : Part} {x y : Json}
    (ha : part? collection p a = some x) (hb : part? collection p b = some y)
    (htag : a.tag = b.tag) : a = b := by
  rcases part?_eq_some ha with ⟨rfl, -⟩ | ⟨rfl, -⟩ <;>
    rcases part?_eq_some hb with ⟨rfl, -⟩ | ⟨rfl, -⟩
  · rfl
  · exact absurd htag (by decide)
  · exact absurd htag (by decide)
  · rfl

theorem get?_parts {collection : Text → Text} {p : Plan} {part : Part} {q : Json}
    (h : part? collection p part = some q) {ps : List Part} (hmem : part ∈ ps) :
    (parts collection p ps).get? part.tag = some q := by
  -- A part can be listed more than once; all its entries are the same.
  rw [parts, Json.get?_ofEntries (x := q), if_pos]
  · have hentry : (part.tag, q) ∈ ps.filterMap fun part =>
        (part? collection p part).map fun x => (part.tag, x) :=
      List.mem_filterMap.2 ⟨part, hmem, by rw [h, Option.map_some]⟩
    exact List.mem_map_of_mem hentry
  · rintro ⟨k, x⟩ hentry hk
    obtain ⟨other, -, hother⟩ := List.mem_filterMap.1 hentry
    obtain ⟨y, hy, heq⟩ := Option.map_eq_some_iff.1 hother
    cases heq
    cases eq_of_tag_eq hy h hk
    exact Option.some.inj (hy.symm.trans h)

end Document

end FilterQuery

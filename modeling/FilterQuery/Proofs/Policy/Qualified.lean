import FilterQuery.Proofs.Policy.Respelling
import FilterQuery.Proofs.Pruning
import FilterQuery.Proofs.Renaming
import FilterQuery.Sql.Dialect
set_option autoImplicit false

/-!
Columns of relations by their full names. Without a whitelist a field that is dropped from a
relation is dropped under its full name too, unless it is listed by itself only: then the same
column can be had everywhere else.
-/

theorem List.filterMap_filter_of_none {α β : Type} {keep : α → Bool} {f : α → Option β}
    (h : ∀ a, keep a = false → f a = none) (l : List α) :
    (l.filter keep).filterMap f = l.filterMap f := by
  have hf : (fun a => if keep a = true then f a else none) = f := by
    funext a
    cases ha : keep a <;> simp [h, ha]
  rw [List.filterMap_filter, hf]

namespace FilterQuery

def Request.without (r : Request) (n : Text) : Request :=
  { r with
    filter := r.filter.bind (Expr.prune (· != n))
    sort := r.sort.filter (·.field != n) }

/-- The column of a relation, written as one name or with the relation as its table. -/
theorem Sql.Dialect.field_qualified (d : Dialect) {relation : Text} (h : '.' ∉ relation)
    (field : Text) : d.field (Policy.qualified relation field) = d.column relation field := by
  have hsplit : relation.splitOn '.' = [relation] := List.splitOn_eq_singleton h
  have hne : (field.splitOn '.').map d.identifier ≠ [] := by simp
  calc d.field (Policy.qualified relation field)
      = Text.join ['.'] ([relation].map d.identifier ++ (field.splitOn '.').map d.identifier) := by
        rw [Sql.Dialect.field, Policy.qualified, List.splitOn_append_cons_self, hsplit,
          List.map_append]
    _ = Text.join ['.'] [d.identifier relation] ++ ['.'] ++ d.field field :=
        Text.join_append (by simp) hne
    _ = d.column relation field := by simp [Sql.Dialect.column]

namespace Policy

variable {p : Policy}

def ListedBare (p : Policy) (relation field : Text) : Prop :=
  p.isIgnored field = true ∧ p.isIgnored (qualified relation field) = false

/-- The plans of a policy do not tell whether a request has a name. -/
def Overlooks (p : Policy) (n : Text) : Prop :=
  ∀ (r : Request) (selected groupBy : List Text),
    p.apply (r.without n) (selected.filter (· != n)) (groupBy.filter (· != n)) =
      p.apply r selected groupBy

structure Carries (p : Policy) (n m : Text) : Prop where
  filter : ∀ (r : Request) (selected groupBy : List Text) (e : Expr), r.filter = some e →
    n ∈ e.fields → ∃ d, (p.apply r selected groupBy).request.filter = some d ∧ m ∈ d.fields
  sort : ∀ (r : Request) (selected groupBy : List Text) (d : Direction), ⟨n, d⟩ ∈ r.sort →
    ⟨m, d⟩ ∈ (p.apply r selected groupBy).request.sort
  selected : ∀ (r : Request) (selected groupBy : List Text), n ∈ selected →
    m ∈ (p.apply r selected groupBy).selected
  groupBy : ∀ (r : Request) (selected groupBy : List Text), n ∈ groupBy →
    m ∈ (p.apply r selected groupBy).groupBy

section

variable {n m : Text}

/-! A name that is dropped might as well not be there. -/

theorem filter_without (h : p.resolve n = none) (e : Expr) :
    (e.prune (· != n)).bind p.filter = p.filter e := by
  have hkeep : (fun f => f != n && (p.resolve f).isSome) = fun f => (p.resolve f).isSome := by
    funext f
    by_cases hf : f = n
    · rw [hf, h]
      simp
    · simp [hf]
  have hprune := Expr.prune_prune (· != n) (fun f => (p.resolve f).isSome) e
  rw [hkeep] at hprune
  calc (e.prune (· != n)).bind p.filter
      = ((e.prune (· != n)).bind (Expr.prune fun f => (p.resolve f).isSome)).map
          (Expr.rename fun f => (p.resolve f).getD (p.rename f)) := Option.map_bind.symm
    _ = p.filter e := by rw [hprune, filter, applyWith]

theorem sort_without (h : p.resolve n = none) (keys : List SortKey) :
    p.sort (keys.filter (·.field != n)) = p.sort keys := by
  refine List.filterMap_filter_of_none (fun k hk => ?_) keys
  rw [bne_eq_false_iff_eq] at hk
  rw [hk, h, Option.map_none]

theorem names_without (h : p.resolve n = none) (ns : List Text) :
    p.names (ns.filter (· != n)) = p.names ns := by
  refine congrArg List.eraseDups (List.filterMap_filter_of_none (fun m hm => ?_) ns)
  rwa [bne_eq_false_iff_eq.1 hm]

theorem overlooks (h : p.resolve n = none) : p.Overlooks n := by
  intro r selected groupBy
  have hfilter : (r.filter.bind (Expr.prune (· != n))).bind p.filter = r.filter.bind p.filter := by
    rw [Option.bind_assoc]
    simp only [filter_without h]
  simp only [apply, Request.without, hfilter, sort_without h, names_without h]

/-! A name that is kept is in the plan wherever it was in the request. -/

theorem mem_fields_filter (h : p.resolve n = some m) {e : Expr} (hn : n ∈ e.fields) :
    ∃ d, p.filter e = some d ∧ m ∈ d.fields := by
  cases hfilter : p.filter e with
  | none =>
    rw [filter, applyWith, Option.map_eq_none_iff, Expr.prune_eq_none_iff] at hfilter
    obtain ⟨l, hl, rfl⟩ := List.mem_map.1 hn
    have hdropped := hfilter l hl
    rw [h] at hdropped
    cases hdropped
  | some d =>
    refine ⟨d, rfl, ?_⟩
    rw [fields_applyWith hfilter]
    exact List.mem_filterMap.2 ⟨n, hn, h⟩

theorem carries (h : p.resolve n = some m) : p.Carries n m where
  filter _ _ _ e he hn := by
    obtain ⟨d, hd, hm⟩ := mem_fields_filter h hn
    exact ⟨d, Option.bind_eq_some_iff.2 ⟨e, he, hd⟩, hm⟩
  sort _ _ _ _ hd := List.mem_filterMap.2 ⟨_, hd, by simp [h]⟩
  selected _ _ _ hn := mem_names.2 ⟨n, hn, h⟩
  groupBy _ _ _ hn := mem_names.2 ⟨n, hn, h⟩

end

theorem resolve_of_no_whitelist (hw : p.whitelist = false) {n : Text} (hn : n ≠ []) :
    p.resolve n = if p.isIgnored n = true then none else some (p.rename n) := by
  rw [resolve, hw]
  simp [hn]

theorem resolve_qualified (hw : p.whitelist = false) (relation field : Text) :
    p.resolve (qualified relation field) =
      if p.isIgnored (qualified relation field) = true then none
      else some (qualified (p.rename relation) (p.rename field)) := by
  rw [resolve_of_no_whitelist hw (by simp [qualified]), rename_qualified]

theorem resolveNested_eq_none_iff (hw : p.whitelist = false) (relation : Text) {field : Text}
    (hf : field ≠ []) : p.resolveNested relation field = none ↔
      p.isIgnored (qualified relation field) = true ∨ p.ListedBare relation field := by
  rw [← Option.not_isSome_iff_eq_none, ← admitsNested, admitsNested_of_no_whitelist hw, ListedBare]
  cases p.isIgnored field <;> cases p.isIgnored (qualified relation field) <;> simp [hf]

/-- What becomes of a field that is dropped from the filters of a relation, where it is written with
the relation in front of it. -/
theorem qualified_of_resolveNested_eq_none (hw : p.whitelist = false) {relation field : Text}
    (hf : field ≠ []) (h : p.resolveNested relation field = none) :
    let n := qualified relation field
    let m := qualified (p.rename relation) (p.rename field)
    (p.resolve n = none ↔ ¬p.ListedBare relation field) ∧
      (¬p.ListedBare relation field → p.Overlooks n) ∧
      (p.ListedBare relation field → p.resolve n = some m ∧ p.Carries n m) ∧
      ('.' ∉ relation → ∀ d : Sql.Dialect,
        d.field m = d.column (p.rename relation) (p.rename field)) := by
  intro n m
  have hresolve : p.resolve n = if p.isIgnored n = true then none else some m :=
    resolve_qualified hw relation field
  have hignored := (resolveNested_eq_none_iff hw relation hf).1 h
  have hiff : p.resolve n = none ↔ ¬p.ListedBare relation field := by
    rw [hresolve]
    cases hn : p.isIgnored n with
    | true => simp [ListedBare, n, hn]
    | false => simpa [n, hn] using hignored
  refine ⟨hiff, fun hbare => overlooks (hiff.2 hbare), fun hbare => ?_, fun hpoint d => ?_⟩
  · have hkept : p.resolve n = some m := by rw [hresolve, if_neg (by simp [n, hbare.2])]
    exact ⟨hkept, carries hkept⟩
  · exact d.field_qualified (by rwa [rename, Naming.point_mem_apply]) _

theorem qualified_of_resolveNested_eq_none_secret :
    let p : Policy := (empty .snakeCase .flexible).ignore
      ["secret".toList, "orderItems.Token".toList]
    let relation : Text := "orderItems".toList
    (p.whitelist = false ∧ p.resolveNested relation "Secret".toList = none ∧
        p.resolveNested relation "token".toList = none) ∧
      p.ListedBare relation "Secret".toList ∧ ¬p.ListedBare relation "token".toList ∧
      p.Carries "orderItems.Secret".toList "order_items.secret".toList ∧
      p.Overlooks "orderItems.token".toList ∧
      Sql.Dialect.postgres.field "order_items.secret".toList =
        Sql.Dialect.postgres.column "order_items".toList "secret".toList := by
  intro p relation
  have hsecret : p.resolveNested relation "Secret".toList = none := by decide
  have htoken : p.resolveNested relation "token".toList = none := by decide
  have hbare : p.ListedBare relation "Secret".toList := ⟨by decide, by decide⟩
  have hnot : ¬p.ListedBare relation "token".toList := fun h => absurd h.1 (by decide)
  have hkept := qualified_of_resolveNested_eq_none (p := p) rfl (by decide) hsecret
  have hdropped := qualified_of_resolveNested_eq_none (p := p) rfl (by decide) htoken
  exact ⟨⟨rfl, hsecret, htoken⟩, hbare, hnot, (hkept.2.2.1 hbare).2, hdropped.2.1 hnot,
    hkept.2.2.2 (by decide) .postgres⟩

end Policy

end FilterQuery

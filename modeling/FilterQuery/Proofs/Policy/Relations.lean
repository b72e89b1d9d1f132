import FilterQuery.Proofs.Distinct
import FilterQuery.Proofs.Merging
import FilterQuery.Proofs.Policy.Resolve
import FilterQuery.Proofs.Pruning
set_option autoImplicit false

/-!
The relations of a plan. Relations that go by one name are loaded as one, where the first of them
stands and with the filters of all of them; each filter is read with the relation as it was written.
-/

namespace FilterQuery

namespace Preloads

theorem map_fst_entries (names : List Text) (f : Text → List Expr) :
    (names.map fun m => (m, f m)).map Prod.fst = names := by
  rw [List.map_map]
  exact List.map_id names

theorem add_entries_of_mem {names : List Text} {n : Text} (hnodup : names.Nodup) (h : n ∈ names)
    (es : List Expr) (f : Text → List Expr) :
    add n es (names.map fun m => (m, f m)) =
      names.map fun m => (m, f m ++ if m = n then es else []) := by
  have hkeys := map_fst_entries names fun _ => []
  have hadd := add_map_of_mem (by rwa [hkeys]) (by rwa [hkeys]) es f
  rwa [List.map_map, List.map_map] at hadd

end Preloads

namespace Policy

variable {p : Policy}

def relationNames (p : Policy) (ps : Preloads) : List Text :=
  ((ps.map Prod.fst).filterMap p.resolve).eraseDups

/-- The filters of all relations that go by a name, one relation after the other: what pruning
leaves of each filter, with the fields under the names that they go by. -/
def filtersUnder (p : Policy) (ps : Preloads) (n : Text) : List Expr :=
  (ps.filter fun q => p.resolve q.1 = some n).flatMap fun q =>
    (q.2.filterMap (Expr.prune (p.admitsNested q.1))).map
      (Expr.rename fun f => (p.resolveNested q.1 f).getD [])

theorem nestedFilter_eq (p : Policy) (relation : Text) (e : Expr) :
    p.nestedFilter relation e =
      (e.prune (p.admitsNested relation)).map
        (Expr.rename fun f => (p.resolveNested relation f).getD []) := by
  unfold nestedFilter applyWith
  -- a field that is left resolves, so that it does not matter what else it would be renamed to
  refine Option.map_congr fun c hc => Expr.rename_congr fun l hl => ?_
  rw [Expr.leaves_of_prune hc, List.mem_filter] at hl
  obtain ⟨n, hn⟩ := Option.isSome_iff_exists.1 hl.2
  rw [hn]
  rfl

theorem filterMap_nestedFilter (p : Policy) (relation : Text) (es : List Expr) :
    es.filterMap (p.nestedFilter relation) =
      (es.filterMap (Expr.prune (p.admitsNested relation))).map
        (Expr.rename fun f => (p.resolveNested relation f).getD []) := by
  rw [List.map_filterMap, funext (p.nestedFilter_eq relation)]

section

variable {ps : Preloads} {q : Text × List Expr} {n : Text}

theorem mem_relationNames : n ∈ p.relationNames ps ↔ ∃ q ∈ ps, p.resolve q.1 = some n := by
  simp [relationNames]

theorem filtersUnder_eq_nil (h : n ∉ p.relationNames ps) : p.filtersUnder ps n = [] := by
  have hnone : (ps.filter fun q => p.resolve q.1 = some n) = [] := by
    rw [List.filter_eq_nil_iff]
    intro q hq hname
    exact h (mem_relationNames.2 ⟨q, hq, of_decide_eq_true hname⟩)
  rw [filtersUnder, hnone, List.flatMap_nil]

/-! One more relation at the end. -/

theorem preloads_concat (p : Policy) (ps : Preloads) (q : Text × List Expr) :
    p.preloads (ps ++ [q]) = p.addPreload (p.preloads ps) q := List.foldl_concat ..

theorem filtersUnder_concat (p : Policy) (ps : Preloads) (q : Text × List Expr) (n : Text) :
    p.filtersUnder (ps ++ [q]) n =
      p.filtersUnder ps n ++
        if p.resolve q.1 = some n then q.2.filterMap (p.nestedFilter q.1) else [] := by
  rw [filtersUnder, List.filter_append, List.flatMap_append, ← filtersUnder, filterMap_nestedFilter]
  by_cases h : p.resolve q.1 = some n <;> simp [h]

theorem relationNames_concat_of_none (h : p.resolve q.1 = none) :
    p.relationNames (ps ++ [q]) = p.relationNames ps := by
  simp [relationNames, h]

theorem relationNames_concat_of_mem (h : p.resolve q.1 = some n) (hn : n ∈ p.relationNames ps) :
    p.relationNames (ps ++ [q]) = p.relationNames ps := by
  rw [relationNames, List.mem_eraseDups] at hn
  rw [relationNames, List.map_append, List.filterMap_append, List.map_singleton,
    List.filterMap_cons_some h, List.filterMap_nil, List.eraseDups_concat_of_mem hn, relationNames]

theorem relationNames_concat_of_not_mem (h : p.resolve q.1 = some n)
    (hn : n ∉ p.relationNames ps) :
    p.relationNames (ps ++ [q]) = p.relationNames ps ++ [n] := by
  rw [relationNames, List.mem_eraseDups] at hn
  rw [relationNames, List.map_append, List.filterMap_append, List.map_singleton,
    List.filterMap_cons_some h, List.filterMap_nil, List.eraseDups_concat_of_not_mem hn,
    relationNames]

end

theorem preloads_eq_gathered (p : Policy) (ps : Preloads) :
    p.preloads ps = (p.relationNames ps).map fun n => (n, p.filtersUnder ps n) := by
  -- a further relation goes, joins the entry of its name, or makes a new one behind the others
  induction ps using List.reverseRecOn with
  | nil => rfl
  | append_singleton ps q ih =>
    rw [preloads_concat, ih, addPreload]
    cases hq : p.resolve q.1 with
    | none =>
      rw [relationNames_concat_of_none hq]
      refine List.map_congr_left fun n _ => ?_
      rw [filtersUnder_concat, hq, if_neg (Option.some_ne_none n).symm, List.append_nil]
    | some name =>
      by_cases hname : name ∈ p.relationNames ps
      · rw [relationNames_concat_of_mem hq hname]
        refine (Preloads.add_entries_of_mem (List.nodup_eraseDups _) hname _ _).trans ?_
        refine List.map_congr_left fun n _ => ?_
        rw [filtersUnder_concat, hq]
        simp only [Option.some.injEq, eq_comm]
      · have hkeys : name ∉ ((p.relationNames ps).map fun n => (n, p.filtersUnder ps n)).map
            Prod.fst := by rwa [Preloads.map_fst_entries]
        rw [relationNames_concat_of_not_mem hq hname, List.map_append, List.map_singleton]
        refine (Preloads.add_new hkeys _).trans ?_
        rw [filtersUnder_concat, if_pos hq, filtersUnder_eq_nil hname, List.nil_append]
        refine congrArg (· ++ _) (List.map_congr_left fun n hn => ?_)
        have hne : ¬p.resolve q.1 = some n := by
          rw [hq, Option.some.injEq]
          rintro rfl
          exact hname hn
        rw [filtersUnder_concat, if_neg hne, List.append_nil]

/-- A relation that goes by no name might as well not be there. -/
theorem preloads_filter_admits (p : Policy) (ps : Preloads) :
    p.preloads (ps.filter fun q => p.admits q.1) = p.preloads ps := by
  have hskip (acc : Preloads) (q : Text × List Expr) :
      (if p.admits q.1 = true then p.addPreload acc q else acc) = p.addPreload acc q := by
    cases h : p.resolve q.1 <;> simp [admits, addPreload, h]
  rw [preloads, List.foldl_filter, preloads]
  simp only [hskip]

/-- The relations of a plan are the names that those of the request go by, each where it first
comes up and with what is left of the filters of all relations that go by it, one after the other.
A relation that goes by a name is there though all of its filters are gone, of one that goes by none
there is nothing left, and of a filter there is nothing left only if the relation has none of its
fields. -/
theorem preloads_gathered (p : Policy) (ps : Preloads) :
    p.preloads ps = (p.relationNames ps).map (fun n => (n, p.filtersUnder ps n)) ∧
      (∀ n, n ∈ (p.preloads ps).map Prod.fst ↔ ∃ q ∈ ps, p.resolve q.1 = some n) ∧
      p.preloads (ps.filter fun q => p.admits q.1) = p.preloads ps ∧
      ∀ relation (e : Expr), e.prune (p.admitsNested relation) = none ↔
        ∀ l ∈ e.leaves, p.resolveNested relation l.1 = none := by
  refine ⟨p.preloads_eq_gathered ps, fun n => ?_, p.preloads_filter_admits ps, fun relation e => ?_⟩
  · rw [preloads_eq_gathered, Preloads.map_fst_entries, mem_relationNames]
  · rw [Expr.prune_eq_none_iff]
    simp only [admitsNested, Option.isSome_eq_false_iff, Option.isNone_iff_eq_none]

example :
    let p : Policy := (empty .snakeCase .flexible).ignore ["secret".toList, "notes".toList]
    let left := p.preloads [("userOrders".toList, [.leaf "orderId".toList (.null true)]),
      ("items".toList, [.leaf "secret".toList (.null true)]), ("Notes".toList, []),
      ("user_orders".toList, [.leaf "secret".toList (.null true), .leaf "Total".toList (.null true)])]
    left.map (fun q => (q.1, q.2.flatMap Expr.fields)) =
      [("user_orders".toList, ["order_id".toList, "total".toList]), ("items".toList, [])] := by
  decide

end Policy

end FilterQuery

import FilterQuery.Proofs.Leaves
set_option autoImplicit false

/-!
The shape of pruned expressions. A junction is collapsed where it is left with fewer than two
operands, on the way up from the leaves, so it does not matter whether leaves are removed at once or
one after the other.
-/

namespace FilterQuery.Expr

mutual

def IsBranching : Expr → Prop
  | .leaf _ _ => True
  | .junction _ es => 2 ≤ es.length ∧ IsBranchingEach es
  | .not e => e.IsBranching

def IsBranchingEach : List Expr → Prop
  | [] => True
  | e :: es => e.IsBranching ∧ IsBranchingEach es

end

theorem isBranching_combine {j : Junction} {es : List Expr} {d : Expr} (h : IsBranchingEach es)
    (hd : combine j es = some d) : d.IsBranching := by
  match es, h, hd with
  | [e], h, rfl => exact h.1
  | e :: f :: es, h, rfl => exact ⟨by simp, h⟩

mutual

theorem isBranching_prune {keep : Text → Bool} :
    ∀ {e d : Expr}, prune keep e = some d → d.IsBranching
  | .leaf f t, d, h => by
    rw [prune] at h
    split at h <;> cases h
    trivial
  | .junction j es, d, h => isBranching_combine (isBranchingEach_pruneEach keep es) h
  | .not e, d, h => by
    obtain ⟨c, hc, rfl⟩ := Option.map_eq_some_iff.1 h
    exact (isBranching_prune hc : c.IsBranching)

theorem isBranchingEach_pruneEach (keep : Text → Bool) :
    ∀ es : List Expr, IsBranchingEach (pruneEach keep es)
  | [] => trivial
  | e :: es => by
    have hes := isBranchingEach_pruneEach keep es
    rw [pruneEach]
    cases h : prune keep e with
    | none => exact hes
    | some d => exact ⟨isBranching_prune h, hes⟩

end

theorem leaves_ne_nil : ∀ {e : Expr}, e.IsBranching → e.leaves ≠ []
  | .leaf f t, _ => List.cons_ne_nil _ _
  | .junction j (e :: es), h => by
    rw [leaves, leavesEach]
    exact List.append_ne_nil_of_left_ne_nil (leaves_ne_nil h.2.1) _
  | .junction j [], h => absurd h.1 (by simp)
  | .not e, h => leaves_ne_nil (e := e) h

theorem prune_eq_none_iff (keep : Text → Bool) (e : Expr) :
    prune keep e = none ↔ ∀ l ∈ e.leaves, keep l.1 = false := by
  have hleaves := leaves_prune keep e
  have hnone : (∀ l ∈ e.leaves, keep l.1 = false) ↔
      (prune keep e).toList.flatMap leaves = [] := by
    rw [hleaves, List.filter_eq_nil_iff]
    simp
  rw [hnone]
  cases h : prune keep e with
  | none => exact iff_of_true rfl rfl
  | some d =>
    refine iff_of_false (Option.some_ne_none d) ?_
    simpa using leaves_ne_nil (isBranching_prune h)

/-- Pruning the operands of a junction that pruning left is pruning the junction. -/
theorem bind_prune_combine (only : Text → Bool) (j : Junction) (es : List Expr) :
    (combine j es).bind (prune only) = combine j (pruneEach only es) := by
  rcases es with _ | ⟨e, _ | ⟨f, es⟩⟩
  · rfl
  · cases h : prune only e <;> simp [combine, pruneEach, h]
  · rfl

mutual

theorem prune_prune (keep only : Text → Bool) :
    ∀ e : Expr, (prune keep e).bind (prune only) = prune (fun f => keep f && only f) e
  | .leaf f t => by cases h : keep f <;> simp [prune, h]
  | .junction j es => by
    rw [prune, bind_prune_combine, pruneEach_pruneEach keep only es, prune]
  | .not e => by
    rw [prune, prune, ← prune_prune keep only e]
    cases prune keep e <;> rfl

theorem pruneEach_pruneEach (keep only : Text → Bool) :
    ∀ es : List Expr, pruneEach only (pruneEach keep es) = pruneEach (fun f => keep f && only f) es
  | [] => rfl
  | e :: es => by
    have he := prune_prune keep only e
    have hes := pruneEach_pruneEach keep only es
    rw [pruneEach, pruneEach, ← he]
    cases prune keep e with
    | none => exact hes
    | some d => rw [Option.bind_some, pruneEach, hes]

end

theorem combine_of_two_le {j : Junction} {es : List Expr} (h : 2 ≤ es.length) :
    combine j es = some (.junction j es) := by
  match es, h with
  | e :: f :: es, _ => rfl

mutual

/-- Pruning that removes no leaf changes nothing where no junction is to be collapsed. -/
theorem prune_of_forall (keep : Text → Bool) :
    ∀ {e : Expr}, e.IsBranching → (∀ l ∈ e.leaves, keep l.1 = true) → prune keep e = some e
  | .leaf f t, _, h => by rw [prune, if_pos (h (f, t) (List.mem_singleton_self _))]
  | .junction j es, hb, h => by
    have hes : pruneEach keep es = es := pruneEach_of_forall keep hb.2 h
    rw [prune, hes, combine_of_two_le hb.1]
  | .not e, hb, h => by
    rw [prune, prune_of_forall keep (e := e) hb h]
    rfl

theorem pruneEach_of_forall (keep : Text → Bool) :
    ∀ {es : List Expr}, IsBranchingEach es → (∀ l ∈ leavesEach es, keep l.1 = true) →
      pruneEach keep es = es
  | [], _, _ => rfl
  | e :: es, hb, h => by
    rw [leavesEach, List.forall_mem_append] at h
    rw [pruneEach, prune_of_forall keep hb.1 h.1, pruneEach_of_forall keep hb.2 h.2]

end

mutual

theorem isBranching_rename (name : Text → Text) :
    ∀ {e : Expr}, e.IsBranching → (rename name e).IsBranching
  | .leaf _ _, _ => trivial
  | .junction j es, h => by
    refine ⟨?_, isBranchingEach_renameEach name h.2⟩
    rw [renameEach_eq_map, List.length_map]
    exact h.1
  | .not e, h => isBranching_rename name (e := e) h

theorem isBranchingEach_renameEach (name : Text → Text) :
    ∀ {es : List Expr}, IsBranchingEach es → IsBranchingEach (renameEach name es)
  | [], _ => trivial
  | _ :: _, h => ⟨isBranching_rename name h.1, isBranchingEach_renameEach name h.2⟩

end

/-- Pruning leaves exactly the leaves that pass, as they are and in their order, and nothing if
there are none; no junction of the result has fewer than two operands; and pruning twice is pruning
once by both tests. -/
theorem prune_exact (keep only : Text → Bool) (e : Expr) :
    (prune keep e).toList.flatMap leaves = e.leaves.filter (fun l => keep l.1) ∧
      (prune keep e = none ↔ ∀ l ∈ e.leaves, keep l.1 = false) ∧
      (∀ d, prune keep e = some d → d.IsBranching) ∧
      (prune keep e).bind (prune only) = prune (fun f => keep f && only f) e :=
  ⟨leaves_prune keep e, prune_eq_none_iff keep e, fun _ h => isBranching_prune h,
    prune_prune keep only e⟩

theorem prune_exact_collapsed :
    prune (· != ['s']) (.junction .or [.junction .and [.leaf ['a'] (.null false),
        .leaf ['s'] (.null true), .leaf ['b'] (.null true)], .not (.leaf ['s'] (.null false)),
        .junction .or []]) =
      some (.junction .and [.leaf ['a'] (.null false), .leaf ['b'] (.null true)]) ∧
    IsBranching (.junction .and [.leaf ['a'] (.null false), .leaf ['b'] (.null true)]) := by
  have hprune : prune (· != ['s']) (.junction .or [.junction .and [.leaf ['a'] (.null false),
      .leaf ['s'] (.null true), .leaf ['b'] (.null true)], .not (.leaf ['s'] (.null false)),
      .junction .or []]) =
    some (.junction .and [.leaf ['a'] (.null false), .leaf ['b'] (.null true)]) := rfl
  exact ⟨hprune, (prune_exact (· != ['s']) (fun _ => true) _).2.2.1 _ hprune⟩

end FilterQuery.Expr

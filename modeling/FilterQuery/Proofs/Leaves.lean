import FilterQuery.Expr
set_option autoImplicit false

/-!
The leaves of an expression that is pruned or renamed. Pruning keeps the leaves that pass as they
are and in their order, renaming keeps all but their fields.
-/

namespace FilterQuery.Expr

theorem leaves_combine (j : Junction) (es : List Expr) :
    (combine j es).toList.flatMap leaves = leavesEach es := by
  match es with
  | [] => rfl
  | [e] => simp [combine, leavesEach]
  | e :: f :: es => simp [combine, leaves]

mutual

theorem leaves_prune (keep : Text → Bool) :
    ∀ e : Expr, (prune keep e).toList.flatMap leaves = e.leaves.filter fun l => keep l.1
  | .leaf f t => by cases h : keep f <;> simp [prune, leaves, h]
  | .junction j es => by rw [prune, leaves_combine, leavesEach_pruneEach keep es, leaves]
  | .not e => by
    have ih := leaves_prune keep e
    cases h : prune keep e with
    | none => simpa [prune, leaves, h] using ih
    | some d => simpa [prune, leaves, h] using ih

theorem leavesEach_pruneEach (keep : Text → Bool) :
    ∀ es : List Expr, leavesEach (pruneEach keep es) = (leavesEach es).filter fun l => keep l.1
  | [] => rfl
  | e :: es => by
    have ih := leaves_prune keep e
    have ihs := leavesEach_pruneEach keep es
    rw [leavesEach, List.filter_append, ← ih, ← ihs, pruneEach]
    cases h : prune keep e with
    | none => rfl
    | some d => simp [leavesEach]

end

mutual

theorem leaves_rename (name : Text → Text) :
    ∀ e : Expr, (rename name e).leaves = e.leaves.map fun l => (name l.1, l.2)
  | .leaf f t => rfl
  | .junction j es => by rw [rename, leaves, leavesEach_renameEach name es, leaves]
  | .not e => by rw [rename, leaves, leaves_rename name e, leaves]

theorem leavesEach_renameEach (name : Text → Text) :
    ∀ es : List Expr,
      leavesEach (renameEach name es) = (leavesEach es).map fun l => (name l.1, l.2)
  | [] => rfl
  | e :: es => by
    rw [renameEach, leavesEach, leaves_rename name e, leavesEach_renameEach name es, leavesEach,
      List.map_append]

end

mutual

theorem rename_congr {name name' : Text → Text} :
    ∀ {e : Expr}, (∀ l ∈ e.leaves, name l.1 = name' l.1) → rename name e = rename name' e
  | .leaf f t, h => by rw [rename, rename, h (f, t) (List.mem_singleton_self _)]
  | .junction j es, h => by
    have hes : renameEach name es = renameEach name' es := renameEach_congr h
    rw [rename, rename, hes]
  | .not e, h => by rw [rename, rename, rename_congr (e := e) h]

theorem renameEach_congr {name name' : Text → Text} :
    ∀ {es : List Expr}, (∀ l ∈ leavesEach es, name l.1 = name' l.1) →
      renameEach name es = renameEach name' es
  | [], _ => rfl
  | e :: es, h => by
    rw [leavesEach, List.forall_mem_append] at h
    rw [renameEach, renameEach, rename_congr h.1, renameEach_congr h.2]

end

mutual

theorem rename_id : ∀ e : Expr, rename id e = e
  | .leaf _ _ => rfl
  | .junction j es => by rw [rename, renameEach_id es]
  | .not e => by rw [rename, rename_id e]

theorem renameEach_id : ∀ es : List Expr, renameEach id es = es
  | [] => rfl
  | e :: es => by rw [renameEach, rename_id e, renameEach_id es]

end

theorem rename_of_forall {name : Text → Text} {e : Expr} (h : ∀ l ∈ e.leaves, name l.1 = l.1) :
    rename name e = e :=
  (rename_congr h).trans (rename_id e)

theorem leaves_of_prune {keep : Text → Bool} {e d : Expr} (h : prune keep e = some d) :
    d.leaves = e.leaves.filter fun l => keep l.1 := by
  rw [← leaves_prune, h]
  simp

theorem fields_rename (name : Text → Text) (e : Expr) :
    (rename name e).fields = e.fields.map name := by
  simp [fields, leaves_rename, Function.comp_def]

theorem fields_of_prune {keep : Text → Bool} {e d : Expr} (h : prune keep e = some d) :
    d.fields = e.fields.filter keep := by
  rw [fields, leaves_of_prune h, fields, List.filter_map]
  rfl

end FilterQuery.Expr

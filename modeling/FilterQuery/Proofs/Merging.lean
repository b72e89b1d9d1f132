import FilterQuery.Proofs.Preloads
import Mathlib.Data.List.Induction
set_option autoImplicit false

/-!
Preloads of two texts collected together: the relations of the first and the new ones of the
second, each with its filters of both in that order.
-/

namespace FilterQuery

namespace Preloads

def filtersOf (r : Text) (ps : Preloads) : List Expr := (ps.lookup r).getD []

/-- The relations of the first preloads and the new ones of the second, each with its filters of
both in that order. -/
def merge (ps qs : Preloads) : Preloads :=
  ps.map (fun p => (p.1, p.2 ++ qs.filtersOf p.1)) ++ qs.filter fun p => p.1 ∉ ps.map Prod.fst

theorem filtersOf_cons (r s : Text) (es : List Expr) (ps : Preloads) :
    filtersOf s ((r, es) :: ps) = if s = r then es else filtersOf s ps := by
  by_cases hs : s = r
  · simp [filtersOf, hs]
  · have hbeq : (s == r) = false := beq_eq_false_iff_ne.2 hs
    simp [filtersOf, List.lookup_cons, hs, hbeq]

theorem filtersOf_add (r s : Text) (es : List Expr) (ps : Preloads) :
    filtersOf s (add r es ps) = filtersOf s ps ++ if s = r then es else [] := by
  induction ps with
  | nil => exact filtersOf_cons r s es []
  | cons p ps ih =>
    obtain ⟨k, fs⟩ := p
    rw [add, filtersOf_cons]
    by_cases hk : k = r
    · subst hk
      rw [if_pos rfl, filtersOf_cons]
      by_cases hs : s = k <;> simp [hs]
    · rw [if_neg hk, filtersOf_cons, ih]
      by_cases hs : s = k
      · have hr : s ≠ r := hs ▸ hk
        simp [hs, hk]
      · simp [hs]

theorem add_append_of_mem {r : Text} {ps : Preloads} (h : r ∈ ps.map Prod.fst) (es : List Expr)
    (qs : Preloads) : add r es (ps ++ qs) = add r es ps ++ qs := by
  induction ps with
  | nil => cases h
  | cons p ps ih =>
    obtain ⟨k, fs⟩ := p
    rw [List.cons_append, add, add]
    by_cases hk : k = r
    · rw [if_pos hk, if_pos hk, List.cons_append]
    · rw [List.map_cons, List.mem_cons] at h
      rw [if_neg hk, if_neg hk, ih (h.resolve_left (Ne.symm hk)), List.cons_append]

theorem add_append_of_not_mem {r : Text} {ps : Preloads} (h : r ∉ ps.map Prod.fst) (es : List Expr)
    (qs : Preloads) : add r es (ps ++ qs) = ps ++ add r es qs := by
  induction ps with
  | nil => rfl
  | cons p ps ih =>
    obtain ⟨k, fs⟩ := p
    rw [List.map_cons, List.mem_cons, not_or] at h
    rw [List.cons_append, add, if_neg (Ne.symm h.1), ih h.2, List.cons_append]

theorem add_map_of_mem {r : Text} {ps : Preloads} (hnodup : (ps.map Prod.fst).Nodup)
    (h : r ∈ ps.map Prod.fst) (es : List Expr) (f : Text → List Expr) :
    add r es (ps.map fun p => (p.1, p.2 ++ f p.1)) =
      ps.map fun p => (p.1, p.2 ++ (f p.1 ++ if p.1 = r then es else [])) := by
  induction ps with
  | nil => cases h
  | cons p ps ih =>
    obtain ⟨k, fs⟩ := p
    rw [List.map_cons, List.nodup_cons] at hnodup
    rw [List.map_cons, List.mem_cons] at h
    rw [List.map_cons, List.map_cons, add]
    by_cases hk : k = r
    · have hrest : ∀ p ∈ ps, p.1 ≠ r := fun p hp heq =>
        hnodup.1 (List.mem_map.2 ⟨p, hp, heq.trans hk.symm⟩)
      rw [if_pos hk, if_pos hk, List.append_assoc]
      refine congrArg _ (List.map_congr_left fun p hp => ?_)
      rw [if_neg (hrest p hp), List.append_nil]
    · rw [if_neg hk, if_neg hk, ih hnodup.2 (h.resolve_left (Ne.symm hk)), List.append_nil]

theorem filter_add (r : Text) (es : List Expr) (keep : Text → Bool) (ps : Preloads) :
    (add r es ps).filter (fun p => keep p.1) =
      if keep r then add r es (ps.filter fun p => keep p.1) else ps.filter fun p => keep p.1 := by
  induction ps with
  | nil => cases hr : keep r <;> simp [add, hr]
  | cons p ps ih =>
    obtain ⟨k, fs⟩ := p
    rw [add]
    by_cases hk : k = r
    · cases hr : keep r <;> simp [add, hk, hr]
    · rw [if_neg hk]
      cases hkeep : keep k <;>
        simp only [hkeep, ih, List.filter_cons, Bool.false_eq_true, if_false, if_true]
      split
      · rw [add, if_neg hk]
      · rfl

/-- Adding to the second of two preloads adds to both of them together. -/
theorem merge_add {ps : Preloads} (hnodup : (ps.map Prod.fst).Nodup) (r : Text) (es : List Expr)
    (qs : Preloads) : merge ps (add r es qs) = add r es (merge ps qs) := by
  have hkeys : (ps.map fun p => (p.1, p.2 ++ filtersOf p.1 qs)).map Prod.fst = ps.map Prod.fst := by
    rw [List.map_map]
    rfl
  have hfilter := filter_add r es (fun k => decide (k ∉ ps.map Prod.fst)) qs
  simp only [merge, filtersOf_add]
  rw [hfilter]
  by_cases hr : r ∈ ps.map Prod.fst
  · rw [if_neg (by simpa using hr), add_append_of_mem (by rwa [hkeys]),
      add_map_of_mem hnodup hr es (filtersOf · qs)]
  · rw [if_pos (by simpa using hr), add_append_of_not_mem (by rwa [hkeys])]
    congr 1
    refine List.map_congr_left fun p hp => ?_
    have hne : p.1 ≠ r := fun heq => hr (heq ▸ List.mem_map_of_mem hp)
    rw [if_neg hne, List.append_nil]

variable [Regex.Engine]

theorem ofSections_concat (ss : List LoadSection) (s : LoadSection) :
    ofSections (ss ++ [s]) = (ofSections ss).addSection s := List.foldl_concat ..

theorem nodup_ofSections (ss : List LoadSection) : ((ofSections ss).map Prod.fst).Nodup := by
  induction ss using List.reverseRecOn with
  | nil => exact List.nodup_nil
  | append_singleton ss s ih =>
    rw [ofSections_concat]
    exact nodup_add s.relation _ ih

theorem ofSections_append (ss us : List LoadSection) :
    ofSections (ss ++ us) = merge (ofSections ss) (ofSections us) := by
  induction us using List.reverseRecOn with
  | nil => simp [merge, ofSections, filtersOf]
  | append_singleton us s ih =>
    rw [← List.append_assoc, ofSections_concat, ofSections_concat, ih]
    exact (merge_add (nodup_ofSections ss) ..).symm

end Preloads

end FilterQuery

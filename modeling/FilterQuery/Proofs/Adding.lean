import FilterQuery.Request
set_option autoImplicit false

/-!
Adding filters to the relations of preloads: a new relation comes last, one that is there keeps its
place.
-/

namespace FilterQuery.Preloads

theorem add_new {r : Text} {ps : Preloads} (h : r ∉ ps.map Prod.fst) (es : List Expr) :
    add r es ps = ps ++ [(r, es)] := by
  induction ps with
  | nil => rfl
  | cons p ps ih =>
    obtain ⟨s, fs⟩ := p
    simp only [List.map_cons, List.mem_cons, not_or] at h
    rw [add, if_neg (Ne.symm h.1), ih h.2]
    rfl

theorem add_last {r : Text} {ps : Preloads} (h : r ∉ ps.map Prod.fst) (es fs : List Expr) :
    add r fs (ps ++ [(r, es)]) = ps ++ [(r, es ++ fs)] := by
  induction ps with
  | nil => simp [add]
  | cons p ps ih =>
    obtain ⟨s, gs⟩ := p
    simp only [List.map_cons, List.mem_cons, not_or] at h
    rw [List.cons_append, add, if_neg (Ne.symm h.1), ih h.2]
    rfl

theorem mem_add {r : Text} {es : List Expr} {ps : Preloads} {p : Text × List Expr}
    (h : p ∈ add r es ps) :
    p ∈ ps ∨ p = (r, es) ∨ ∃ fs, (r, fs) ∈ ps ∧ p = (r, fs ++ es) := by
  induction ps with
  | nil => exact .inr (.inl (List.mem_singleton.1 h))
  | cons q ps ih =>
    obtain ⟨s, fs⟩ := q
    rw [add] at h
    split at h
    · rename_i hs
      subst hs
      rcases List.mem_cons.1 h with rfl | h
      · exact .inr (.inr ⟨fs, List.mem_cons_self .., rfl⟩)
      · exact .inl (List.mem_cons_of_mem _ h)
    · rcases List.mem_cons.1 h with rfl | h
      · exact .inl (List.mem_cons_self ..)
      · rcases ih h with h | h | ⟨gs, hgs, h⟩
        · exact .inl (List.mem_cons_of_mem _ h)
        · exact .inr (.inl h)
        · exact .inr (.inr ⟨gs, List.mem_cons_of_mem _ hgs, h⟩)

theorem nodup_add (r : Text) (es : List Expr) {ps : Preloads} (h : (ps.map Prod.fst).Nodup) :
    ((add r es ps).map Prod.fst).Nodup := by
  induction ps with
  | nil => simp [add]
  | cons q ps ih =>
    obtain ⟨s, fs⟩ := q
    rw [List.map_cons, List.nodup_cons] at h
    rw [add]
    split
    · rw [List.map_cons, List.nodup_cons]
      exact h
    · rename_i hne
      rw [List.map_cons, List.nodup_cons]
      refine ⟨fun hs => ?_, ih h.2⟩
      obtain ⟨p, hp, hps⟩ := List.mem_map.1 hs
      rcases mem_add hp with hmem | rfl | ⟨gs, -, rfl⟩
      · exact h.1 (List.mem_map.2 ⟨p, hmem, hps⟩)
      · exact hne hps.symm
      · exact hne hps.symm

end FilterQuery.Preloads

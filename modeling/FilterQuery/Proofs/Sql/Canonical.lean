import FilterQuery.Proofs.Sql.Fragment
import FilterQuery.Proofs.Sql.Identifier
set_option autoImplicit false

/-!
The canonical form of an expression: what its condition can say. Membership in an empty list says
nothing, equality with null is a test for null, and junctions and negations of nothing go. An
expression and its canonical form have the same condition, which is empty exactly if there is no
canonical form.
-/

namespace FilterQuery

def Test.canonical : Test → Option Test
  | .compare .eq .null => some (.null false)
  | .compare .neq .null => some (.null true)
  | .member _ [] => none
  | t => some t

namespace Expr

mutual

/-- The canonical form: leaves in theirs or left out, junctions of fewer than two operands that
are left collapsed, and negations of nothing left out. -/
def canonical : Expr → Option Expr
  | .leaf f t => t.canonical.map (.leaf f)
  | .junction j es => combine j (canonicalEach es)
  | .not e => e.canonical.map .not

def canonicalEach : List Expr → List Expr
  | [] => []
  | e :: es => e.canonical.toList ++ canonicalEach es

end

mutual

def IsCanonical : Expr → Prop
  | .leaf _ t => t.canonical = some t
  | .junction _ es => 2 ≤ es.length ∧ IsCanonicalEach es
  | .not e => e.IsCanonical

def IsCanonicalEach : List Expr → Prop
  | [] => True
  | e :: es => e.IsCanonical ∧ IsCanonicalEach es

end

theorem isCanonical_combine {j : Junction} {es : List Expr} (h : IsCanonicalEach es) :
    ∀ {c : Expr}, combine j es = some c → c.IsCanonical := by
  intro c hc
  match es, h, hc with
  | [e], h, rfl => exact h.1
  | e :: f :: es, h, rfl => exact ⟨by simp, h⟩

end Expr

theorem Test.canonical_canonical {t u : Test} (h : t.canonical = some u) :
    u.canonical = some u := by
  have hkept := h
  unfold canonical at h
  split at h
  · cases h
    rfl
  · cases h
    rfl
  · cases h
  · cases h
    exact hkept

namespace Expr

mutual

theorem isCanonical_canonical : ∀ {e c : Expr}, e.canonical = some c → c.IsCanonical
  | .leaf f t, c, h => by
    obtain ⟨u, hu, rfl⟩ := Option.map_eq_some_iff.1 h
    exact Test.canonical_canonical hu
  | .junction j es, c, h => isCanonical_combine (isCanonicalEach_canonicalEach es) h
  | .not e, c, h => by
    obtain ⟨d, hd, rfl⟩ := Option.map_eq_some_iff.1 h
    exact (isCanonical_canonical hd : d.IsCanonical)

theorem isCanonicalEach_canonicalEach : ∀ es : List Expr, IsCanonicalEach (canonicalEach es)
  | [] => trivial
  | e :: es => by
    have hes := isCanonicalEach_canonicalEach es
    rw [canonicalEach]
    cases h : e.canonical with
    | none => exact hes
    | some c => exact ⟨isCanonical_canonical h, hes⟩

end

end Expr

namespace Sql.Style

open Fragment FilterQuery.Expr

variable (s : Style)

theorem isEmpty_field (f : Text) : (s.field f).isEmpty = false := by
  have h := s.head?_field f
  cases hc : (s.field f).content with
  | nil => simp [hc] at h
  | cons c t => simp [isEmpty, hc]

theorem isEmpty_leaf (f : Text) {t : Test} (h : t.canonical = some t) :
    (s.leaf f t).isEmpty = false := by
  have hfield := s.isEmpty_field f
  unfold leaf
  split
  all_goals try exact isEmpty_join_cons hfield _ _
  · rfl
  · rename_i vs
    cases vs with
    | nil => cases h
    | cons v vs => exact isEmpty_join_cons hfield _ _

theorem leaf_canonical (f : Text) (t : Test) :
    s.leaf f t = (t.canonical.map (s.leaf f)).getD .empty := by
  unfold Test.canonical
  split <;> rfl

mutual

theorem isEmpty_condition : ∀ {e : Expr}, e.IsCanonical → (s.condition e).isEmpty = false
  | .leaf f t, h => s.isEmpty_leaf f h
  | .junction j es, h => by
    have heach := isEmpty_conditionEach h.2
    match es, h.1, heach with
    | e :: f :: es, _, heach =>
      rw [condition, conditionEach, conditionEach, conditions_pair _ heach]
      rfl
  | .not e, h => by
    have he : (s.condition e).isEmpty = false := isEmpty_condition h
    rw [condition, Fragment.not, he]
    rfl

theorem isEmpty_conditionEach : ∀ {es : List Expr}, IsCanonicalEach es →
    ∀ f ∈ s.conditionEach es, f.isEmpty = false
  | [], _ => by simp [conditionEach]
  | e :: es, h => by
    rw [conditionEach, List.forall_mem_cons]
    exact ⟨isEmpty_condition h.1, isEmpty_conditionEach h.2⟩

end

theorem condition_combine (j : Junction) {es : List Expr} (h : IsCanonicalEach es) :
    conditions (junctionWord j) (s.conditionEach es) =
      ((combine j es).map s.condition).getD .empty := by
  match es, h with
  | [], _ => rfl
  | [e], h => exact conditions_single _ (s.isEmpty_condition h.1)
  | e :: f :: es, _ => rfl

mutual

theorem condition_canonical : ∀ e : Expr,
    s.condition e = (e.canonical.map s.condition).getD .empty
  | .leaf f t => by
    rw [condition, leaf_canonical, canonical]
    cases t.canonical <;> rfl
  | .junction j es => by
    rw [condition, ← conditions_filter, conditionEach_canonical es, canonical,
      s.condition_combine j (isCanonicalEach_canonicalEach es)]
  | .not e => by
    rw [condition, condition_canonical e, canonical]
    cases e.canonical <;> rfl

theorem conditionEach_canonical : ∀ es : List Expr,
    (s.conditionEach es).filter (fun f => !f.isEmpty) = s.conditionEach (canonicalEach es)
  | [] => rfl
  | e :: es => by
    rw [conditionEach, condition_canonical e, List.filter_cons, conditionEach_canonical es,
      canonicalEach]
    cases h : e.canonical with
    | none => rfl
    | some c =>
      have hc := s.isEmpty_condition (isCanonical_canonical h)
      simp [hc, conditionEach]

end

theorem isEmpty_condition_iff (e : Expr) : (s.condition e).isEmpty = true ↔ e.canonical = none := by
  rw [condition_canonical]
  cases h : e.canonical with
  | none => simp [isEmpty]
  | some c => simp [s.isEmpty_condition (isCanonical_canonical h)]

theorem condition_eq_empty {e : Expr} (h : (s.condition e).isEmpty = true) :
    s.condition e = .empty := by
  rw [condition_canonical, (s.isEmpty_condition_iff e).1 h]
  rfl

end Sql.Style

end FilterQuery

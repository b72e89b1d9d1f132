import FilterQuery.Proofs.Sql.Canonical
set_option autoImplicit false

/-!
The arguments of conditions. A test passes its values in the order in which it names them, an
expression those of its leaves from left to right, and a part of a statement those of its
expressions; what an empty piece would drop has no arguments.
-/

namespace FilterQuery

def Test.arguments : Test → List Value
  | .compare .eq .null => []
  | .compare .neq .null => []
  | .compare _ v => [v]
  | .pattern _ p => [.text p]
  | .member _ vs => vs
  | .between low high => [low, high]
  | .null _ => []

def Expr.arguments (e : Expr) : List Value := e.leaves.flatMap fun (_, t) => t.arguments

def Plan.arguments (p : Plan) : Part → List Value
  | .joins => p.request.preloads.flatMap fun (_, es) => es.flatMap Expr.arguments
  | .filter => p.request.filter.toList.flatMap Expr.arguments
  | _ => []

namespace Sql

namespace Fragment

/-- An empty piece that passes no argument: nothing is lost where it goes. -/
def Lossless (f : Fragment) : Prop := f.isEmpty = true → f.args = []

theorem args_filter {fs : List Fragment} (h : ∀ f ∈ fs, f.Lossless) :
    (fs.filter fun f => !f.isEmpty).flatMap args = fs.flatMap args := by
  induction fs with
  | nil => rfl
  | cons f fs ih =>
    rw [List.forall_mem_cons] at h
    rw [List.filter_cons, List.flatMap_cons, ← ih h.2]
    cases hf : f.isEmpty with
    | false => rfl
    | true =>
      rw [h.1 hf]
      rfl

theorem args_join (separator : Text) {fs : List Fragment} (h : ∀ f ∈ fs, f.Lossless) :
    (join separator fs).args = fs.flatMap args := args_filter h

theorem args_conditions (word : Text) {fs : List Fragment} (h : ∀ f ∈ fs, f.Lossless) :
    (conditions word fs).args = fs.flatMap args := by
  rw [conditions_eq]
  split <;> exact args_join (' ' :: word ++ [' ']) h

theorem args_not (f : Fragment) : f.not.args = f.args := by
  unfold not
  split <;> rfl

theorem lossless_atom (t : Text) : (atom t).Lossless := fun _ => rfl

theorem lossless_of_isEmpty {f : Fragment} (h : f.isEmpty = false) : f.Lossless := by
  simp [Lossless, h]

theorem lossless_join (separator : Text) (fs : List Fragment) : (join separator fs).Lossless := by
  induction fs with
  | nil => exact fun _ => rfl
  | cons f fs ih =>
    cases hf : f.isEmpty with
    | false => exact lossless_of_isEmpty (isEmpty_join_cons hf _ _)
    | true => rwa [join_cons, if_pos hf]

theorem args_comparison {l r : Fragment} (operator : Text) (hl : l.Lossless) (hr : r.Lossless) :
    (comparison l operator r).args = l.args ++ r.args := by
  rw [comparison, spaced, args_join]
  · simp
  · rw [List.forall_mem_cons, List.forall_mem_cons, List.forall_mem_singleton]
    exact ⟨hl, lossless_atom _, hr⟩

theorem args_null {f : Fragment} (n : Bool) (hf : f.Lossless) : (f.null n).args = f.args := by
  rw [null, spaced, args_join]
  · exact List.append_nil _
  · rw [List.forall_mem_cons, List.forall_mem_singleton]
    exact ⟨hf, lossless_atom _⟩

theorem args_member (n : Bool) {f : Fragment} (hf : f.Lossless) (hargs : f.args = [])
    (vs : List Value) : (f.member n vs).args = vs := by
  have hplaceholders : (join ", ".toList (vs.map placeholder)).args = vs := by
    rw [args_join]
    · simp [List.flatMap_map]
    · rw [List.forall_mem_map]
      exact fun _ _ => lossless_of_isEmpty rfl
  rw [member]
  cases vs with
  | nil => rfl
  | cons v vs =>
    rw [List.isEmpty_cons, if_neg Bool.false_ne_true,
      args_comparison _ hf (lossless_of_isEmpty (isEmpty_parenthesize _)), hargs]
    exact hplaceholders

end Fragment

namespace Style

open Fragment

variable (s : Style)

theorem args_leaf (f : Text) (t : Test) : (s.leaf f t).args = t.arguments := by
  have hfield : (s.field f).Lossless := lossless_atom _
  have hplaceholder (v : Value) : (placeholder v).Lossless := lossless_of_isEmpty rfl
  have hlower (g : Fragment) : g.lower.Lossless := lossless_of_isEmpty rfl
  unfold leaf
  split
  · exact args_null _ hfield
  · exact args_null _ hfield
  · rename_i c v heq hneq
    rw [args_comparison _ hfield (hplaceholder v), Test.arguments]
    · rfl
    · exact heq
    · exact hneq
  · exact args_comparison _ hfield (hplaceholder _)
  · exact args_comparison _ (hlower _) (hlower _)
  · exact args_comparison _ hfield (hplaceholder _)
  · rename_i n vs
    exact args_member n hfield rfl vs
  · rename_i low high
    rw [between, spaced, args_join]
    · rfl
    · simp [hfield, hplaceholder, lossless_atom]
  · exact args_null _ hfield

theorem lossless_condition (e : Expr) : (s.condition e).Lossless := by
  intro h
  rw [s.condition_eq_empty h]
  rfl

theorem lossless_conditionEach (es : List Expr) : ∀ f ∈ s.conditionEach es, f.Lossless := by
  rw [conditionEach_eq_map]
  intro f hf
  obtain ⟨e, -, rfl⟩ := List.mem_map.1 hf
  exact s.lossless_condition e

mutual

theorem args_condition : ∀ e : Expr, (s.condition e).args = e.arguments
  | .leaf f t => by
    rw [condition, args_leaf, Expr.arguments, Expr.leaves]
    exact (List.append_nil _).symm
  | .junction j es => by
    rw [condition, args_conditions _ (s.lossless_conditionEach es), args_conditionEach es,
      Expr.arguments, Expr.leaves, Expr.leavesEach_eq_flatMap, List.flatMap_assoc]
    rfl
  | .not e => by
    rw [condition, args_not, args_condition e, Expr.arguments, Expr.arguments, Expr.leaves]

theorem args_conditionEach : ∀ es : List Expr,
    (s.conditionEach es).flatMap args = es.flatMap Expr.arguments
  | [] => rfl
  | e :: es => by
    rw [conditionEach, List.flatMap_cons, args_condition e, args_conditionEach es,
      List.flatMap_cons]

end

theorem preload_eq_condition (r : Text) (es : List Expr) :
    s.preload r es = { s with relation := some r }.condition (.junction .and es) := rfl

theorem args_joinOf (r : Text) (es : List Expr) :
    (s.joinOf r es).args = es.flatMap Expr.arguments := by
  have hargs : (s.preload r es).args = es.flatMap Expr.arguments := by
    rw [preload_eq_condition, args_condition, Expr.arguments, Expr.leaves,
      Expr.leavesEach_eq_flatMap, List.flatMap_assoc]
    rfl
  have hlossless : (s.preload r es).Lossless := by
    rw [preload_eq_condition]
    exact lossless_condition _ _
  rw [joinOf, spaced, args_join]
  · split
    · rename_i h
      rw [← hargs, hlossless h]
      rfl
    · rw [← hargs]
      exact List.append_nil _
  · rw [List.forall_mem_cons, List.forall_mem_singleton]
    refine ⟨lossless_atom _, ?_⟩
    split
    · exact lossless_atom _
    · exact hlossless

theorem args_part (table : Text) (p : Plan) (x : Part) :
    (s.part table p x).args = p.arguments x := by
  cases x with
  | joins =>
    rw [part, spaced, args_join]
    · rw [List.flatMap_map, Plan.arguments]
      simp only [args_joinOf]
    · intro f hf
      obtain ⟨entry, -, rfl⟩ := List.mem_map.1 hf
      exact lossless_join _ _
  | filter =>
    rw [part, Plan.arguments]
    cases p.request.filter with
    | none => rfl
    | some e =>
      have hlossless := s.lossless_condition e
      simp only [Option.map_some, Option.toList_some, List.flatMap_singleton]
      rw [← s.args_condition e]
      split
      · rename_i h
        rw [hlossless h]
        rfl
      · rw [spaced, args_join]
        · exact List.append_nil _
        · rw [List.forall_mem_cons, List.forall_mem_singleton]
          exact ⟨lossless_atom _, hlossless⟩
  | columns =>
    rw [part]
    split <;> rfl
  | groups | order | limit | offset =>
    rw [part, clause]
    split <;> rfl
  | source | find | aggregate | unknown => rfl

theorem lossless_part (table : Text) (p : Plan) (x : Part) : (s.part table p x).Lossless := by
  cases x with
  | joins => exact lossless_join _ _
  | filter =>
    rw [part]
    split
    · split
      · exact lossless_atom []
      · exact lossless_join _ _
    · exact lossless_atom []
  | columns =>
    rw [part]
    split <;> exact lossless_atom _
  | groups | order | limit | offset =>
    rw [part, clause]
    split <;> exact lossless_atom _
  | source | find | aggregate | unknown => exact lossless_atom _

theorem args_statement (table : Text) (p : Plan) (parts : List Part) :
    (s.statement table p parts).args = parts.flatMap p.arguments := by
  rw [statement, spaced, args_join, List.flatMap_map]
  · simp only [args_part]
  · intro f hf
    obtain ⟨x, -, rfl⟩ := List.mem_map.1 hf
    exact s.lossless_part table p x

end Style

end Sql

end FilterQuery
